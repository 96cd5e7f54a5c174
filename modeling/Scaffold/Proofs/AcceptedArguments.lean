import Mathlib.Data.List.Basic
import Scaffold.Command.Run

/-!
# Command lines that are accepted

Each argument is declared with what it excludes, what it is required without and the range
of its numbers. On a host that enforces these declarations, an invocation never asks for two
things that exclude each other, an emission has one source, and its width fits on a page. A
reader that goes over the arguments from left to right, in any order and spelling, enforces
them: every setting comes from a value that its argument takes, and at the end of a level
its settings are held against each other.
-/
namespace Scaffold

/-- The settings that an emission asks for. -/
def Emission.settings (e : Emission) : List Setting :=
  e.file?.toList.map .source ++ e.code?.toList.map .code ++ [.target e.target] ++
    e.output?.toList.map .output ++ e.indent?.toList.map .indent ++
    e.className?.toList.map .className

/-- The settings that an invocation asks for in front of its subcommand. -/
def Invocation.settings (i : Invocation) : List Setting :=
  i.file?.toList.map .file ++ i.lexFile?.toList.map .lexFile ++
    i.parseFile?.toList.map .parseFile ++ if i.json then [.json] else []

/-- Settings that are in line with the declarations of their arguments and of a level. -/
structure Level.Honoured (level : Level) (given : List Setting) : Prop where
  conflicts : ∀ s ∈ given, ∀ t ∈ given, t.argument ∉ s.argument.usage.conflictsWith
  required_unless : ∀ a ∈ level.arguments, ∀ b ∈ a.usage.requiredUnless?,
    ∃ s ∈ given, s.argument = a ∨ s.argument = b
  ranges : ∀ s ∈ given, ∀ n ∈ s.number?, ∀ range ∈ s.argument.usage.range?,
    range.1 ≤ n ∧ n ≤ range.2

/-- A host that accepts arguments only if they are in line with their declarations. -/
structure Host.EnforcesUsage (host : Host) : Prop where
  top : ∀ args i, host.arguments args = .ok i → Level.top.Honoured i.settings
  emit : ∀ args i, host.arguments args = .ok i → ∀ e ∈ i.emit?, Level.emit.Honoured e.settings

/-- An emission has one source, and a width that fits on a page if it has any. -/
structure Emission.Consistent (e : Emission) : Prop where
  one_source : e.file?.isSome ≠ e.code?.isSome
  width_le : ∀ width ∈ e.indent?, width ≤ 16

/-- A file excludes both dumps, with a subcommand behind it and without. -/
structure Invocation.Consistent (i : Invocation) : Prop where
  file_alone : i.file?.isSome = true → i.lexFile? = none ∧ i.parseFile? = none
  emission : ∀ e ∈ i.emit?, e.Consistent

lemma Emission.consistent_of_honoured {e : Emission} (h : Level.emit.Honoured e.settings) :
    e.Consistent := by
  constructor
  case one_source =>
    cases hfile : e.file? with
    | none =>
      cases hcode : e.code? with
      | some code => simp
      | none =>
        have hother : ∀ s ∈ e.settings, s.argument ≠ .source ∧ s.argument ≠ .code := by
          intro s hs
          cases s <;> simp_all [settings, Setting.argument]
        obtain ⟨s, hs, hargument⟩ := h.required_unless .source (by decide) .code rfl
        rcases hargument with hargument | hargument
        · exact absurd hargument (hother s hs).1
        · exact absurd hargument (hother s hs).2
    | some path =>
      cases hcode : e.code? with
      | none => simp
      | some code =>
        have hexclude := h.conflicts (.source path) (by simp [settings, hfile]) (.code code)
          (by simp [settings, hcode])
        exact absurd (List.mem_singleton_self _) hexclude
  case width_le =>
    intro width hwidth
    have hmem : Setting.indent width ∈ e.settings := by
      rw [Option.mem_def] at hwidth
      simp [settings, hwidth]
    exact (h.ranges (.indent width) hmem width rfl (0, 16) rfl).2

lemma Invocation.consistent_of_honoured {i : Invocation} (h : Level.top.Honoured i.settings)
    (hemit : ∀ e ∈ i.emit?, Level.emit.Honoured e.settings) : i.Consistent := by
  constructor
  case file_alone =>
    intro hfile
    obtain ⟨path, hpath⟩ := Option.isSome_iff_exists.mp hfile
    have hmem : Setting.file path ∈ i.settings := by simp [settings, hpath]
    constructor
    · cases hlex : i.lexFile? with
      | none => rfl
      | some lexed =>
        have hexclude := h.conflicts (.lexFile lexed) (by simp [settings, hlex]) _ hmem
        exact absurd (List.mem_singleton_self _) hexclude
    · cases hparse : i.parseFile? with
      | none => rfl
      | some parsed =>
        have hexclude := h.conflicts (.parseFile parsed) (by simp [settings, hparse]) _ hmem
        exact absurd (List.mem_singleton_self _) hexclude
  case emission => exact fun e he => Emission.consistent_of_honoured (hemit e he)

/-- A width that was asked for is used as it is. -/
lemma Emission.Consistent.unit_eq {e : Emission} (h : e.Consistent) :
    (Page.ofWidth e.style.indentWidth).unit =
      String.ofList (List.replicate (e.indent?.getD 4) ' ') := by
  have hle : e.indent?.getD 4 ≤ Page.maxIndent := by
    cases hwidth : e.indent? with
    | none => decide
    | some width => exact h.width_le width hwidth
  have hstyle : e.style.indentWidth = e.indent?.getD 4 := rfl
  rw [Page.ofWidth, hstyle, Nat.min_eq_left hle]

namespace Session

/-- Sessions that do not end with an error, whatever they are answered. -/
inductive Avoids (err : CommandError) : Session → Prop
  | done {result : Except CommandError String} : result ≠ .error err → Avoids err (done result)
  | size {path : String} {next : Except FileError Nat → Session} :
      (∀ answer, Avoids err (next answer)) → Avoids err (size path next)
  | read {path : String} {next : Except FileError ByteArray → Session} :
      (∀ answer, Avoids err (next answer)) → Avoids err (read path next)
  | write {path text : String} {next : Except FileError Unit → Session} :
      (∀ answer, Avoids err (next answer)) → Avoids err (write path text next)

theorem Avoids.result_ne {σ φ : Type} {err : CommandError} {session : Session}
    (h : Avoids err session) (fs : FileSystem σ φ) (s : σ) :
    (session.play fs s).1 ≠ .error err := by
  induction h generalizing s with
  | done h => exact h
  | size _ ih => exact ih _ s
  | read _ ih => exact ih _ s
  | write _ ih => exact ih _ _

lemma avoids_fail (f : Fault) : Avoids .noSource (fail f) := .done (by simp)

lemma avoids_print (text : String) : Avoids .noSource (print text) := .done (by simp)

lemma avoids_withSource {path : String} {next : String → Session}
    (h : ∀ text, Avoids .noSource (next text)) : Avoids .noSource (withSource path next) :=
  withSource_induction avoids_fail (fun _ => .size) (fun _ => .read) h

lemma avoids_serialized (text : Except String String) :
    Avoids .noSource (done (serialized text)) := by
  cases text <;> exact .done (by simp [serialized])

lemma avoids_translate (host : Host) (e : Emission) (text : String) :
    Avoids .noSource (translate host e text) := by
  rw [translate]
  split
  · exact avoids_fail _
  · cases e.output? with
    | none => exact avoids_print _
    | some path =>
      refine .write fun answer => ?_
      cases answer with
      | error err => exact avoids_fail _
      | ok => exact avoids_print _

lemma avoids_emit (host : Host) {e : Emission} (h : e.Consistent) :
    Avoids .noSource (emit host e) := by
  rw [emit]
  split
  · exact avoids_translate _ _ _
  · exact avoids_withSource fun text => avoids_translate _ _ _
  · rename_i hcode hfile
    exact absurd (by rw [hcode, hfile]) h.one_source

lemma avoids_ofInvocation (host : Host) {i : Invocation} (h : i.Consistent) :
    Avoids .noSource (ofInvocation host i) := by
  rw [ofInvocation]
  split
  · refine avoids_withSource fun text => ?_
    rw [Host.dumpTokens]
    split
    · exact avoids_serialized _
    · exact avoids_print _
  · exact avoids_withSource fun text => avoids_serialized _
  · rename_i e _ _ hemit
    exact avoids_emit host (h.emission e hemit)
  · exact avoids_withSource fun text => avoids_print _
  · exact .done (by simp)

end Session

lemma Reading.lift_eq_ok_iff {α : Type} {x : Except Refusal α} {a : α} :
    lift x = .ok a ↔ x = .ok a := by
  cases x <;> simp [lift, refuse]

/-- A setting that some value of its argument gives. -/
def Setting.IsRead (s : Setting) : Prop := ∃ value, s.argument.setting value = .ok s

/-- A number that is taken is in the range of its argument. -/
lemma Argument.exists_of_numberSetting {a : Argument} {make : Nat → Setting} {value : String}
    {s : Setting} {low high : Nat} (hrange : a.usage.range? = some (low, high))
    (h : a.numberSetting make value = .ok s) : ∃ n, s = make n ∧ low ≤ n ∧ n ≤ high := by
  rw [numberSetting] at h
  split at h
  · contradiction
  simp only [hrange, Option.getD_some] at h
  split at h
  · rename_i n _ hn
    exact ⟨n.toNat, (Except.ok.inj h).symm, by omega, by omega⟩
  · contradiction

/-- A value gives a setting of its own argument. -/
lemma Argument.argument_of_setting {a : Argument} {value : String} {s : Setting}
    (h : a.setting value = .ok s) : s.argument = a := by
  cases a with
  | lexFile | parseFile | file | source | output =>
    simp only [setting, pathSetting] at h
    split at h
    · contradiction
    · cases h
      rfl
  | code | className | json =>
    cases h
    rfl
  | target =>
    simp only [setting] at h
    split at h
    · cases h
      rfl
    · contradiction
  | indent =>
    obtain ⟨n, rfl, -⟩ := exists_of_numberSetting rfl h
    rfl
  | help | version => contradiction

/-- A number that was read is in the range of its argument. -/
lemma Setting.IsRead.in_range {s : Setting} (h : s.IsRead) {n low high : Nat}
    (hn : s.number? = some n) (hrange : s.argument.usage.range? = some (low, high)) :
    low ≤ n ∧ n ≤ high := by
  obtain ⟨value, hvalue⟩ := h
  cases s with
  | indent width =>
    cases hn
    obtain ⟨n, hsetting, hn⟩ := Argument.exists_of_numberSetting hrange hvalue
    cases hsetting
    exact hn
  | _ => contradiction

namespace Reading

/-- All settings given so far were read from values. A value that still waits is no setting. -/
def Sound (r : Reading) : Prop := ∀ s ∈ r.given, s.IsRead

variable {r r' : Reading} {level : Level} {a : Argument}

lemma Sound.accept (h : r.Sound) {value? : Option String} (hr : r.accept a value? = .ok r') :
    r'.Sound := by
  cases value? with
  | none => contradiction
  | some value =>
    simp only [Reading.accept] at hr
    split at hr
    · contradiction
    obtain ⟨s, hs, hr⟩ := bind_eq_ok_iff.mp hr
    cases hr
    intro t ht
    rcases List.mem_append.mp ht with ht | ht
    · exact h t ht
    · rw [List.mem_singleton.mp ht]
      exact ⟨value, by rw [Argument.argument_of_setting hs, hs]⟩

lemma Sound.settle (h : r.Sound) (hr : r.settle = .ok r') : r'.Sound := by
  rw [Reading.settle] at hr
  split at hr
  · cases hr
    exact h
  · exact Sound.accept (r := { r with waiting? := none }) h hr

lemma Sound.flag (h : r.Sound) (hr : r.flag level a = .ok r') : r'.Sound := by
  obtain ⟨settled, hsettled, hr⟩ := bind_eq_ok_iff.mp hr
  have hsound := h.settle (lift_eq_ok_iff.mp hsettled)
  split at hr
  · contradiction
  · contradiction
  · exact hsound.accept (lift_eq_ok_iff.mp hr)

lemma Sound.option (h : r.Sound) {attached? : Option String}
    (hr : r.option a attached? = .ok r') : r'.Sound := by
  obtain ⟨settled, hsettled, hr⟩ := bind_eq_ok_iff.mp hr
  have hsound := h.settle (lift_eq_ok_iff.mp hsettled)
  split at hr
  · exact hsound.accept (lift_eq_ok_iff.mp hr)
  · cases hr
    exact hsound

lemma Sound.long (h : r.Sound) {text : List Char} (hr : r.long level text = .ok r') :
    r'.Sound := by
  simp only [Reading.long] at hr
  split at hr
  · contradiction
  split at hr
  · exact h.option hr
  split at hr
  · contradiction
  · exact h.flag hr

lemma Sound.shorts (h : r.Sound) {cs : List Char} (hr : r.shorts level cs = .ok r') :
    r'.Sound := by
  induction cs generalizing r with
  | nil =>
    cases hr
    exact h
  | cons c cs ih =>
    unfold Reading.shorts at hr
    split at hr
    · contradiction
    split at hr
    · exact h.option hr
    · obtain ⟨flagged, hflagged, hr⟩ := bind_eq_ok_iff.mp hr
      exact ih (h.flag hflagged) hr

lemma Sound.positional (h : r.Sound) {text : String} (hr : r.positional level text = .ok r') :
    r'.Sound := by
  rw [Reading.positional] at hr
  split at hr
  · split at hr <;> contradiction
  · obtain ⟨settled, hsettled, hr⟩ := bind_eq_ok_iff.mp hr
    have hsound := h.settle (lift_eq_ok_iff.mp hsettled)
    cases hr
    exact hsound

/-- One argument adds at most settings that were read from values. -/
theorem Sound.argument (h : r.Sound) {text : String} (hr : r.argument level text = .ok r') :
    r'.Sound := by
  rw [Reading.argument] at hr
  split at hr
  · exact h.positional hr
  split at hr
  · cases hr
    exact h
  · exact h.long hr
  · exact h.shorts hr
  split at hr
  · cases hr
    exact h
  · exact h.positional hr

/-- So do all arguments up to the end or to a subcommand. -/
theorem Sound.arguments (h : r.Sound) {args : List String} {rest? : Option (String × List String)}
    (hr : r.arguments level args = .ok (r', rest?)) : r'.Sound := by
  induction args generalizing r with
  | nil =>
    cases hr
    exact h
  | cons text args ih =>
    rw [Reading.arguments] at hr
    split at hr
    · cases hr
      exact h
    · obtain ⟨next, hnext, hr⟩ := bind_eq_ok_iff.mp hr
      exact ih (h.argument hnext) hr

lemma finish_eq_ok_iff : r.finish level = .ok r' ↔
    r.settle = .ok r' ∧ r'.conflict? = none ∧ level.arguments.any r'.lacks = false := by
  rw [finish, bind_eq_ok_iff]
  constructor
  · rintro ⟨settled, hsettled, hr⟩
    split at hr
    · contradiction
    rename_i hconflict
    split at hr
    · contradiction
    · rename_i hlacks
      cases hr
      exact ⟨hsettled, hconflict, by simpa using hlacks⟩
  · rintro ⟨hsettled, hconflict, hlacks⟩
    refine ⟨r', hsettled, ?_⟩
    rw [hconflict, hlacks]
    rfl

/-- Without a conflict, no two settings exclude each other. -/
lemma conflicts_eq_false (h : r.conflict? = none) {s t : Setting} (hs : s ∈ r.given)
    (ht : t ∈ r.given) : s.argument.conflicts t.argument = false := by
  rw [conflict?, List.findSome?_eq_none_iff] at h
  have hnone := h s.argument (List.mem_map_of_mem hs)
  cases hfilter : (r.given.map Setting.argument).filter s.argument.conflicts with
  | cons other others => simp [hfilter] at hnone
  | nil =>
    rw [List.filter_eq_nil_iff] at hfilter
    simpa using hfilter t.argument (List.mem_map_of_mem ht)

lemma has_iff : r.has a = true ↔ ∃ s ∈ r.given, s.argument = a := by
  simp [has]

/-- What is left when a level is finished is in line with all declarations. -/
theorem Sound.honoured (h : r.Sound) (hr : r.finish level = .ok r') : level.Honoured r'.given := by
  obtain ⟨hsettle, hconflict, hlacks⟩ := finish_eq_ok_iff.mp hr
  constructor
  case conflicts =>
    intro s hs t ht
    have hfree := conflicts_eq_false hconflict hs ht
    simp only [Argument.conflicts, Bool.or_eq_false_iff, decide_eq_false_iff_not] at hfree
    exact hfree.1
  case required_unless =>
    intro a ha b hb
    rw [Option.mem_def] at hb
    have hgiven : r'.lacks a = false := by
      simpa using List.any_eq_false.mp hlacks a ha
    by_cases hhas : r'.has a = true
    · obtain ⟨s, hs, hargument⟩ := has_iff.mp hhas
      exact ⟨s, hs, Or.inl hargument⟩
    · have hother : a.usage.required = false ∧ r'.has b = true := by
        simpa [lacks, hhas, hb] using hgiven
      obtain ⟨s, hs, hargument⟩ := has_iff.mp hother.2
      exact ⟨s, hs, Or.inr hargument⟩
  case ranges =>
    rintro s hs n hn ⟨low, high⟩ hrange
    exact (h.settle hsettle s hs).in_range hn hrange

/-- What is found was given. -/
lemma mem_given_of_find {α : Type} {pick : Setting → Option α} {make : α → Setting} {s : Setting}
    (hs : s ∈ (r.find pick).toList.map make) (hpick : ∀ t x, pick t = some x → t = make x) :
    s ∈ r.given := by
  obtain ⟨x, hx, rfl⟩ := List.mem_map.mp hs
  obtain ⟨t, ht, hpicked⟩ := List.exists_of_findSome?_eq_some (Option.mem_toList.mp hx)
  rwa [← hpick t x hpicked]

end Reading

/-- An argument and its text make the setting. -/
lemma Setting.eq_of_text? {s t : Setting} {text : String} (hargument : s.argument = t.argument)
    (hs : s.text? = some text) (ht : t.text? = some text) : s = t := by
  cases s <;> cases hs <;> cases t <;> cases hargument <;> cases ht <;> rfl

namespace Reading

variable {r : Reading} {a : Argument} {make : String → Setting} {s : Setting}

lemma mem_given_of_text? (hs : s ∈ (r.text? a).toList.map make)
    (hargument : ∀ x, (make x).argument = a) (htext : ∀ x, (make x).text? = some x) :
    s ∈ r.given := by
  refine mem_given_of_find hs fun t x hpick => ?_
  split at hpick
  · rename_i ht
    exact Setting.eq_of_text? (ht.trans (hargument x).symm) hpick (htext x)
  · contradiction

lemma isSome_text? (hs : s ∈ r.given) (htext : s.text?.isSome = true) :
    (r.text? s.argument).isSome = true :=
  List.findSome?_isSome_iff.mpr ⟨s, hs, by simpa using htext⟩

/-- An emission asks for what was given, and has a source if one was given. -/
lemma emission_eq_ok {e : Emission} (h : r.emission = .ok e) : ∃ r', r.finish .emit = .ok r' ∧
    (∀ s ∈ e.settings, s ∈ r'.given) ∧ e.file? = r'.text? .source ∧ e.code? = r'.text? .code := by
  obtain ⟨settled, hsettled, h⟩ := bind_eq_ok_iff.mp h
  split at h
  · contradiction
  rename_i target htarget
  cases h
  refine ⟨settled, hsettled, fun s hs => ?_, rfl, rfl⟩
  simp only [Emission.settings, List.mem_append, or_assoc] at hs
  rcases hs with hs | hs | hs | hs | hs | hs
  · exact mem_given_of_text? hs (fun _ => rfl) fun _ => rfl
  · exact mem_given_of_text? hs (fun _ => rfl) fun _ => rfl
  · have hs : s ∈ (settled.find Setting.target?).toList.map .target := by rwa [htarget]
    refine mem_given_of_find hs ?_
    rintro (_ | _) x ⟨⟩
    rfl
  · exact mem_given_of_text? hs (fun _ => rfl) fun _ => rfl
  · refine mem_given_of_find hs ?_
    rintro (_ | _) x ⟨⟩
    rfl
  · exact mem_given_of_text? hs (fun _ => rfl) fun _ => rfl

end Reading

lemma Level.Honoured.of_subset {level : Level} {given fewer : List Setting}
    (h : level.Honoured given) (hsub : ∀ s ∈ fewer, s ∈ given)
    (hunless : ∀ a ∈ level.arguments, ∀ b ∈ a.usage.requiredUnless?,
      ∃ s ∈ fewer, s.argument = a ∨ s.argument = b) : level.Honoured fewer where
  conflicts := fun s hs t ht => h.conflicts s (hsub s hs) t (hsub t ht)
  required_unless := hunless
  ranges := fun s hs => h.ranges s (hsub s hs)

lemma Emission.honoured_of_read {args : List String} {e : Emission}
    (h : Emission.read args = .ok e) : Level.emit.Honoured e.settings := by
  obtain ⟨⟨r, rest?⟩, hr, h⟩ := bind_eq_ok_iff.mp h
  obtain ⟨settled, hfinish, hsub, hfile, hcode⟩ :=
    Reading.emission_eq_ok (Reading.lift_eq_ok_iff.mp h)
  have hempty : Reading.Sound {} := by simp [Reading.Sound]
  have hgiven := (hempty.arguments hr).honoured hfinish
  refine hgiven.of_subset hsub fun a ha b hb => ?_
  have hdeclared : ∀ a ∈ Level.emit.arguments, ∀ b ∈ a.usage.requiredUnless?,
      a = .source ∧ b = .code := by decide
  obtain ⟨rfl, rfl⟩ := hdeclared a ha b hb
  obtain ⟨s, hs, hargument⟩ := hgiven.required_unless _ ha _ hb
  have htext : s.text?.isSome = true := by
    rcases hargument with hargument | hargument <;> cases s <;> cases hargument <;> rfl
  have hfound := Reading.isSome_text? hs htext
  rcases hargument with hargument | hargument
  · rw [hargument, ← hfile] at hfound
    obtain ⟨path, hpath⟩ := Option.isSome_iff_exists.mp hfound
    exact ⟨.source path, by simp [settings, hpath], Or.inl rfl⟩
  · rw [hargument, ← hcode] at hfound
    obtain ⟨code, hcode'⟩ := Option.isSome_iff_exists.mp hfound
    exact ⟨.code code, by simp [settings, hcode'], Or.inr rfl⟩

/-- An emission was read from the arguments behind its subcommand. -/
lemma Invocation.exists_emission_read {rest? : Option (String × List String)}
    {emit? : Option Emission} (h : subcommand rest? = .ok emit?) :
    ∀ e ∈ emit?, ∃ args, Emission.read args = .ok e := by
  rintro e rfl
  rw [subcommand.eq_def] at h
  split at h
  · cases h
  · split at h <;> contradiction
  · rename_i args _
    cases hread : Emission.read args with
    | error ending =>
      rw [hread] at h
      cases h
    | ok found =>
      rw [hread] at h
      cases h
      exact ⟨args, hread⟩

lemma Invocation.honoured_of_read {args : List String} {i : Invocation}
    (h : Invocation.read args = .ok i) : Level.top.Honoured i.settings ∧
      ∀ e ∈ i.emit?, Level.emit.Honoured e.settings := by
  obtain ⟨⟨r, rest?⟩, hr, h⟩ := bind_eq_ok_iff.mp h
  obtain ⟨emit?, hemit, h⟩ := bind_eq_ok_iff.mp h
  obtain ⟨settled, hfinish, h⟩ := bind_eq_ok_iff.mp h
  have hempty : Reading.Sound {} := by simp [Reading.Sound]
  have hgiven := (hempty.arguments hr).honoured (Reading.lift_eq_ok_iff.mp hfinish)
  cases h
  constructor
  · refine hgiven.of_subset (fun s hs => ?_) fun a ha b hb => ?_
    · simp only [settings, List.mem_append, or_assoc] at hs
      rcases hs with hs | hs | hs | hs
      · exact Reading.mem_given_of_text? hs (fun _ => rfl) fun _ => rfl
      · exact Reading.mem_given_of_text? hs (fun _ => rfl) fun _ => rfl
      · exact Reading.mem_given_of_text? hs (fun _ => rfl) fun _ => rfl
      · split at hs
        · rename_i hjson
          obtain ⟨t, ht, hargument⟩ := Reading.has_iff.mp hjson
          rw [List.mem_singleton.mp hs]
          cases t <;> cases hargument
          exact ht
        · cases hs
    · have hdeclared : ∀ a ∈ Level.top.arguments, a.usage.requiredUnless? = none := by decide
      rw [hdeclared a ha] at hb
      cases hb
  · intro e he
    obtain ⟨emitArgs, hread⟩ := exists_emission_read hemit e he
    exact Emission.honoured_of_read hread

lemma Host.standard_arguments_eq_ok_iff {args : List String} {i : Invocation} :
    Host.standard.arguments args = .ok i ↔ Invocation.read args = .ok i := by
  simp only [standard]
  cases Invocation.read args <;> simp [Except.mapError]

/-- However the arguments are written, what is read from them is in line with what was
declared. -/
theorem Host.standard_enforcesUsage : Host.standard.EnforcesUsage := by
  constructor
  case top =>
    intro args i h
    exact (Invocation.honoured_of_read (standard_arguments_eq_ok_iff.mp h)).1
  case emit =>
    intro args i h
    exact (Invocation.honoured_of_read (standard_arguments_eq_ok_iff.mp h)).2

/-- Whatever the arguments and their order, on a host that enforces the declarations a command
line that is accepted asks for things that go together. Its session has a source for what it
emits, and no width is cut down. -/
theorem Invocation.consistent_of_accepted {host : Host} (hhost : host.EnforcesUsage)
    {args : List String} {i : Invocation} (h : host.arguments args = .ok i) :
    i.Consistent ∧
      (∀ (σ φ : Type) (fs : FileSystem σ φ) (s : σ),
        ((Session.ofInvocation host i).play fs s).1 ≠ .error .noSource) ∧
      ∀ e ∈ i.emit?, (Page.ofWidth e.style.indentWidth).unit =
        String.ofList (List.replicate (e.indent?.getD 4) ' ') := by
  have hconsistent := consistent_of_honoured (hhost.top args i h) (hhost.emit args i h)
  exact ⟨hconsistent,
    fun _ _ fs s => (Session.avoids_ofInvocation host hconsistent).result_ne fs s,
    fun e he => (hconsistent.emission e he).unit_eq⟩

/-- A file in front of the subcommand, values attached and apart, and the largest width. -/
theorem Invocation.consistent_of_accepted_spelled :
    let args := ["--json", "a.c", "emit", "--indent", "+16", "-tJAVA", "-c=int x;",
      "--class-name=", "-o", "-"]
    let e : Emission := ⟨none, some "int x;", .java, some "-", some 16, some ""⟩
    let i : Invocation := ⟨some e, some "a.c", none, none, true⟩
    Host.standard.EnforcesUsage ∧ Host.standard.arguments args = .ok i ∧ e.Consistent ∧
      ((Session.ofInvocation .standard i).play Folder.system ⟨[]⟩).1 ≠ .error .noSource ∧
      (Page.ofWidth e.style.indentWidth).unit = "                " := by
  intro args e i
  have hread : Host.standard.arguments args = .ok i :=
    Host.standard_arguments_eq_ok_iff.mpr (by decide +kernel)
  obtain ⟨hconsistent, hsource, hunit⟩ :=
    Invocation.consistent_of_accepted Host.standard_enforcesUsage hread
  exact ⟨Host.standard_enforcesUsage, hread, hconsistent.emission e rfl, hsource _ _ _ _,
    (hunit e rfl).trans (by decide)⟩

end Scaffold
