import Scaffold.Command.Run
import Scaffold.Proofs.FolderWrites

/-!
# What a command line does to the files

A session asks for one thing at a time, so what it can do to the files follows from the
order of its requests. Dumps and summaries never write. An emission writes once, when its
source was read and compiled, and nothing can fail behind that. So on a file system where a
failing write changes nothing, a session that fails has changed nothing, and one that
succeeds has changed at most the file that it was asked to write.
-/
namespace Scaffold

variable {σ φ : Type} {fs : FileSystem σ φ} {s : σ}

lemma FileSystem.SameFiles.refl (fs : FileSystem σ φ) (s : σ) : fs.SameFiles s s := fun _ => rfl

namespace Session

/-- Sessions that write nothing, whatever they are answered. -/
inductive ReadOnly : Session → Prop
  | done (result : Except CommandError String) : ReadOnly (done result)
  | size {path : String} {next : Except FileError Nat → Session} :
      (∀ answer, ReadOnly (next answer)) → ReadOnly (size path next)
  | read {path : String} {next : Except FileError ByteArray → Session} :
      (∀ answer, ReadOnly (next answer)) → ReadOnly (read path next)

/-- Sessions that write at most as their last act, which then was a success. -/
inductive WritesLast : Session → Prop
  | readOnly {session : Session} : ReadOnly session → WritesLast session
  | size {path : String} {next : Except FileError Nat → Session} :
      (∀ answer, WritesLast (next answer)) → WritesLast (size path next)
  | read {path : String} {next : Except FileError ByteArray → Session} :
      (∀ answer, WritesLast (next answer)) → WritesLast (read path next)
  | write {path text out : String} {next : Except FileError Unit → Session} :
      next (.ok ()) = print out → (∀ e, ReadOnly (next (.error e))) →
      WritesLast (write path text next)

theorem ReadOnly.play_eq {session : Session} (h : ReadOnly session) (fs : FileSystem σ φ) (s : σ) :
    (session.play fs s).2 = s := by
  induction h with
  | done result => rfl
  | size _ ih => exact ih _
  | read _ ih => exact ih _

lemma play_write {path text : String} {answer : Except FileError Unit} {t : σ}
    (h : fs.write s path text.toUTF8 = (answer, t)) (next : Except FileError Unit → Session) :
    (write path text next).play fs s = (next answer).play fs t := by
  rw [play, h]

/-- A session that fails has not come to its write, or the write has failed. -/
theorem WritesLast.sameFiles_of_failed {session : Session} (h : WritesLast session)
    (hfs : fs.Lawful) {err : CommandError} (hfailed : (session.play fs s).1 = .error err) :
    fs.SameFiles s (session.play fs s).2 := by
  induction h with
  | readOnly h =>
    rw [h.play_eq fs s]
    exact .refl fs s
  | size _ ih => exact ih _ hfailed
  | read _ ih => exact ih _ hfailed
  | @write path text out next hok herror =>
    rcases hwrite : fs.write s path text.toUTF8 with ⟨answer, t⟩
    rw [play_write hwrite] at hfailed ⊢
    cases answer with
    | ok =>
      rw [hok] at hfailed
      contradiction
    | error e =>
      rw [(herror e).play_eq fs t]
      exact hfs.write_error s path text.toUTF8 e t hwrite

lemma readOnly_withSource {path : String} {next : String → Session}
    (h : ∀ text, ReadOnly (next text)) : ReadOnly (withSource path next) :=
  withSource_induction (fun _ => .done _) (fun _ => .size) (fun _ => .read) h

lemma writesLast_withSource {path : String} {next : String → Session}
    (h : ∀ text, WritesLast (next text)) : WritesLast (withSource path next) :=
  withSource_induction (fun _ => .readOnly (.done _)) (fun _ => .size) (fun _ => .read) h

lemma writesLast_translate (host : Host) (e : Emission) (text : String) :
    WritesLast (translate host e text) := by
  rw [translate]
  split
  · exact .readOnly (.done _)
  · cases e.output? with
    | none => exact .readOnly (.done _)
    | some path => exact .write rfl fun e => .done _

/-- Whatever was asked for, a session writes at most as its last act. -/
theorem writesLast_ofInvocation (host : Host) (i : Invocation) :
    WritesLast (ofInvocation host i) := by
  rw [ofInvocation]
  split
  · exact .readOnly (readOnly_withSource fun text => .done _)
  · exact .readOnly (readOnly_withSource fun text => .done _)
  · rw [emit]
    split
    · exact writesLast_translate _ _ _
    · exact writesLast_withSource fun text => writesLast_translate _ _ _
    · exact .readOnly (.done _)
  · exact .readOnly (readOnly_withSource fun text => .done _)
  · exact .readOnly (.done _)

end Session

/-- A path to a file that holds a text, can be read and is not too large to be a source. -/
structure FileSystem.Holds (fs : FileSystem σ φ) (s : σ) (path text : String) : Prop where
  content : ∃ f, fs.leads? s path = some f ∧ fs.content? s f = some text.toUTF8
  size_le : ∃ n, fs.size s path = .ok n ∧ n ≤ maxSourceSize
  read_eq : fs.read s path = .ok text.toUTF8

lemma fromUTF8?_eq_some_iff {bytes : ByteArray} {text : String} :
    String.fromUTF8? bytes = some text ↔ bytes = text.toUTF8 := by
  unfold String.fromUTF8?
  constructor
  · intro h
    split at h
    · cases h
      rfl
    · contradiction
  · rintro rfl
    exact dif_pos text.isValidUTF8

lemma sourceText_eq_ok_iff {path text : String} {content : Except FileError ByteArray} :
    sourceText path content = .ok text ↔ content = .ok text.toUTF8 := by
  cases content with
  | error e => simp [sourceText]
  | ok bytes =>
    rw [sourceText, Except.ok.injEq, ← fromUTF8?_eq_some_iff]
    cases String.fromUTF8? bytes <;> simp

lemma FileSystem.Holds.unique {path text text' : String} (h : fs.Holds s path text)
    (h' : fs.Holds s path text') : text = text' := by
  have heq : Except.ok text.toUTF8 = Except.ok text'.toUTF8 := h.read_eq.symm.trans h'.read_eq
  have hsome := fromUTF8?_eq_some_iff.mpr (Except.ok.inj heq)
  rw [fromUTF8?_eq_some_iff.mpr rfl] at hsome
  exact Option.some.inj hsome

/-- A session that shows a view of a source file and changes nothing. -/
structure Shows (fs : FileSystem σ φ) (before : σ) (path : String)
    (view : String → Except CommandError String) (result : Except CommandError String)
    (after : σ) : Prop where
  unchanged : after = before
  shown : ∀ text, fs.Holds before path text → result = view text
  unread : (¬∃ text, fs.Holds before path text) → ∃ f, result = .error (.fault f)

namespace Emission

/-- The text that an emission starts from: the code given inline, else what its file holds. -/
def Source (e : Emission) (fs : FileSystem σ φ) (s : σ) (text : String) : Prop :=
  e.code? = some text ∨ e.code? = none ∧ ∃ path ∈ e.file?, fs.Holds s path text

lemma Source.unique {e : Emission} {text text' : String} (h : e.Source fs s text)
    (h' : e.Source fs s text') : text = text' := by
  obtain hcode | ⟨hcode, path, hpath, hholds⟩ := h <;>
    obtain hcode' | ⟨hcode', path', hpath', hholds'⟩ := h'
  · exact Option.some.inj (hcode.symm.trans hcode')
  · cases hcode.symm.trans hcode'
  · cases hcode.symm.trans hcode'
  · cases hpath.symm.trans hpath'
    exact hholds.unique hholds'

/-- The skeleton of a text in the default style with what was asked for on top. -/
def skeleton (e : Emission) (text : String) : String :=
  let style : Style := ⟨e.indent?.getD 4, 1, e.className?.getD "Main"⟩
  (compile text e.target style).output

end Emission

/-- A session that prints a skeleton or puts it into a file. -/
structure Emits (host : Host) (fs : FileSystem σ φ) (before : σ) (e : Emission)
    (result : Except CommandError String) (after : σ) : Prop where
  succeeds_iff : (∃ out, result = .ok out) ↔ ∃ text, e.Source fs before text ∧
    host.abort? text e.target e.style = none ∧
      ∀ path ∈ e.output?, (fs.write before path (e.skeleton text).toUTF8).1 = .ok ()
  aborted : ∀ text abort, e.Source fs before text →
    host.abort? text e.target e.style = some abort →
      result = .error (.fault (.internal abort.detail))
  printed : e.output? = none → after = before ∧ ∀ out, result = .ok out →
    ∃ text, e.Source fs before text ∧ out = e.skeleton text
  written : ∀ path ∈ e.output?, ∀ out, result = .ok out → out = "" ∧ ∃ text f,
    e.Source fs before text ∧ fs.leads? after path = some f ∧
      fs.content? after f = some (e.skeleton text).toUTF8 ∧
      ∀ g, g ≠ f → fs.content? after g = fs.content? before g

namespace Session

variable {host : Host} {e : Emission} {path text : String}

lemma play_withSource (h : fs.Holds s path text) (next : String → Session) :
    (withSource path next).play fs s = (next text).play fs s := by
  obtain ⟨n, hsize, hle⟩ := h.size_le
  rw [withSource, play, hsize]
  simp only [if_neg (Nat.not_lt.mpr hle), play, sourceText_eq_ok_iff.mpr h.read_eq]

/-- Without a source a session ends with a fault, whatever would follow. -/
lemma play_withSource_of_not_holds (hfs : fs.Lawful) (h : ¬∃ text, fs.Holds s path text)
    (next : String → Session) :
    ∃ f, (withSource path next).play fs s = (.error (.fault f), s) := by
  rw [withSource, play]
  cases hsize : fs.size s path with
  | error e => exact ⟨_, rfl⟩
  | ok n =>
    simp only
    split
    · exact ⟨_, rfl⟩
    · rename_i hle
      rw [play]
      cases hsource : sourceText path (fs.read s path) with
      | error f => exact ⟨f, rfl⟩
      | ok text =>
        have hread := sourceText_eq_ok_iff.mp hsource
        exact absurd ⟨text, hfs.read_ok s path _ hread, ⟨n, hsize, Nat.not_lt.mp hle⟩, hread⟩ h

lemma shows_withSource (hfs : fs.Lawful) (s : σ) (path : String)
    (view : String → Except CommandError String) :
    Shows fs s path view ((withSource path fun text => done (view text)).play fs s).1
      ((withSource path fun text => done (view text)).play fs s).2 := by
  constructor
  case unchanged => exact (readOnly_withSource fun text => .done _).play_eq fs s
  case shown =>
    intro text htext
    rw [play_withSource htext]
    rfl
  case unread =>
    intro hnone
    obtain ⟨f, hf⟩ := play_withSource_of_not_holds hfs hnone fun text => done (view text)
    exact ⟨f, by rw [hf]⟩

lemma play_emit (h : e.Source fs s text) :
    (emit host e).play fs s = (translate host e text).play fs s := by
  obtain hcode | ⟨hcode, path, hpath, hholds⟩ := h
  · simp only [emit, hcode]
  · rw [Option.mem_def] at hpath
    simp only [emit, hcode, hpath, play_withSource hholds]

lemma play_emit_of_not_source (hfs : fs.Lawful) (host : Host) (h : ¬∃ text, e.Source fs s text) :
    ∃ err, (emit host e).play fs s = (.error err, s) := by
  rw [emit]
  split
  · rename_i code hcode
    exact absurd ⟨code, Or.inl hcode⟩ h
  · rename_i path hcode hfile
    have hnone : ¬∃ text, fs.Holds s path text := by
      rintro ⟨text, htext⟩
      exact h ⟨text, Or.inr ⟨hcode, path, hfile, htext⟩⟩
    obtain ⟨f, hf⟩ := play_withSource_of_not_holds hfs hnone (translate host e)
    exact ⟨_, hf⟩
  · exact ⟨_, rfl⟩

lemma translate_of_abort {abort : Abort} (h : host.abort? text e.target e.style = some abort) :
    translate host e text = fail (.internal abort.detail) := by
  rw [translate, Host.compile, h, Fault.guarded]

lemma translate_of_no_abort (h : host.abort? text e.target e.style = none) :
    translate host e text = deliver e.output? (e.skeleton text) := by
  rw [translate, Host.compile, h, Fault.guarded]
  rfl

/-- What holds of an emission that succeeds holds of none that fails. -/
lemma emits_of_failed {err : CommandError} {after : σ}
    (hfailed : ¬∃ text, e.Source fs s text ∧ host.abort? text e.target e.style = none ∧
      ∀ path ∈ e.output?, (fs.write s path (e.skeleton text).toUTF8).1 = .ok ())
    (haborted : ∀ text abort, e.Source fs s text →
      host.abort? text e.target e.style = some abort → err = .fault (.internal abort.detail))
    (hprinted : e.output? = none → after = s) : Emits host fs s e (.error err) after := by
  constructor
  case succeeds_iff => exact iff_of_false (by simp) hfailed
  case aborted =>
    intro text abort htext habort
    rw [haborted text abort htext habort]
  case printed => exact fun hnone => ⟨hprinted hnone, by simp⟩
  case written => simp

section Runs

variable (h : e.Source fs s text) (hruns : host.abort? text e.target e.style = none)

include h hruns

lemma abort?_ne_some {text' : String} {abort : Abort} (h' : e.Source fs s text') :
    host.abort? text' e.target e.style ≠ some abort := by
  simp [← h.unique h', hruns]

lemma emits_of_printed (houtput : e.output? = none) :
    Emits host fs s e (.ok (e.skeleton text)) s := by
  constructor
  case succeeds_iff => exact iff_of_true ⟨_, rfl⟩ ⟨text, h, hruns, by simp [houtput]⟩
  case aborted => exact fun _ _ h' habort => absurd habort (abort?_ne_some h hruns h')
  case printed =>
    refine fun _ => ⟨rfl, ?_⟩
    rintro out ⟨⟩
    exact ⟨text, h, rfl⟩
  case written => simp [houtput]

lemma emits_of_written (hfs : fs.Lawful) (houtput : e.output? = some path) {t : σ}
    (hwrite : fs.write s path (e.skeleton text).toUTF8 = (.ok (), t)) :
    Emits host fs s e (.ok "") t := by
  have hpath : ∀ path' ∈ e.output?, path = path' := fun path' hpath' =>
    Option.some.inj (houtput.symm.trans hpath')
  constructor
  case succeeds_iff =>
    refine iff_of_true ⟨_, rfl⟩ ⟨text, h, hruns, fun path' hpath' => ?_⟩
    obtain rfl := hpath path' hpath'
    rw [hwrite]
  case aborted => exact fun _ _ h' habort => absurd habort (abort?_ne_some h hruns h')
  case printed => simp [houtput]
  case written =>
    intro path' hpath'
    obtain rfl := hpath path' hpath'
    rintro out ⟨⟩
    obtain ⟨f, hf⟩ := hfs.write_ok s path _ t hwrite
    exact ⟨rfl, text, f, h, hf⟩

lemma emits_of_refused (houtput : e.output? = some path) {err : FileError} {t : σ}
    (hwrite : fs.write s path (e.skeleton text).toUTF8 = (.error err, t)) :
    Emits host fs s e (.error (.fault (.file path err))) t := by
  refine emits_of_failed ?_ ?_ (by simp [houtput])
  · rintro ⟨text', h', -, hwritten⟩
    have hok := hwritten path houtput
    rw [← h.unique h', hwrite] at hok
    contradiction
  · exact fun _ _ h' habort => absurd habort (abort?_ne_some h hruns h')

lemma emits_deliver (hfs : fs.Lawful) :
    Emits host fs s e ((deliver e.output? (e.skeleton text)).play fs s).1
      ((deliver e.output? (e.skeleton text)).play fs s).2 := by
  cases houtput : e.output? with
  | none => exact emits_of_printed h hruns houtput
  | some path =>
    rcases hwrite : fs.write s path (e.skeleton text).toUTF8 with ⟨answer, t⟩
    rw [deliver, play_write hwrite]
    cases answer with
    | ok => exact emits_of_written h hruns hfs houtput hwrite
    | error err => exact emits_of_refused h hruns houtput hwrite

end Runs

lemma emits_emit (hfs : fs.Lawful) (host : Host) (s : σ) (e : Emission) :
    Emits host fs s e ((emit host e).play fs s).1 ((emit host e).play fs s).2 := by
  by_cases hsource : ∃ text, e.Source fs s text
  · obtain ⟨text, htext⟩ := hsource
    rw [play_emit htext]
    cases habort : host.abort? text e.target e.style with
    | none =>
      rw [translate_of_no_abort habort]
      exact emits_deliver htext habort hfs
    | some abort =>
      rw [translate_of_abort habort]
      refine emits_of_failed ?_ ?_ fun _ => rfl
      · rintro ⟨text', htext', hruns, -⟩
        simp [← htext.unique htext', habort] at hruns
      · intro text' abort' htext' habort'
        rw [← htext.unique htext', habort] at habort'
        cases habort'
        rfl
  · obtain ⟨err, herr⟩ := play_emit_of_not_source hfs host hsource
    rw [herr]
    refine emits_of_failed ?_ ?_ fun _ => rfl
    · rintro ⟨text, htext, -⟩
      exact hsource ⟨text, htext⟩
    · exact fun text _ htext _ => absurd ⟨text, htext⟩ hsource

end Session

/-- What a session for an invocation prints, and what it leaves behind. -/
structure Invocation.Effects (i : Invocation) (host : Host) (fs : FileSystem σ φ) (before : σ)
    (result : Except CommandError String) (after : σ) : Prop where
  failed : ∀ err, result = .error err → fs.SameFiles before after
  /-- A file that differs afterwards is the one that an emission was asked to write. -/
  changed : ∀ f, fs.content? after f ≠ fs.content? before f → i.lexFile? = none ∧
    i.parseFile? = none ∧ ∃ e ∈ i.emit?, ∃ path ∈ e.output?, fs.leads? after path = some f
  tokens : ∀ path ∈ i.lexFile?,
    Shows fs before path (fun text => host.dumpTokens i.json (lex text)) result after
  program : i.lexFile? = none → ∀ path ∈ i.parseFile?,
    Shows fs before path (fun text => host.dumpProgram i.json (parse (lex text))) result after
  emission : i.lexFile? = none → i.parseFile? = none → ∀ e ∈ i.emit?,
    Emits host fs before e result after
  counts : i.lexFile? = none → i.parseFile? = none → i.emit? = none → ∀ path ∈ i.file?,
    Shows fs before path (fun text => .ok (path ++ ": " ++
      summary (lex text) (parse (lex text)) ++ "\n")) result after
  nothing : i.lexFile? = none → i.parseFile? = none → i.emit? = none → i.file? = none →
    result = .error .noInput

namespace Session

variable {host : Host} {path text : String}

/-- Only a session that emits into a file can change one. -/
lemma exists_output_of_changed (hfs : fs.Lawful) (i : Invocation) {f : φ}
    (hf : fs.content? ((ofInvocation host i).play fs s).2 f ≠ fs.content? s f) :
    i.lexFile? = none ∧ i.parseFile? = none ∧ ∃ e ∈ i.emit?, ∃ path ∈ e.output?,
      fs.leads? ((ofInvocation host i).play fs s).2 path = some f := by
  have hread : ¬ReadOnly (ofInvocation host i) := by
    intro hread
    exact hf (by rw [hread.play_eq fs s])
  have hfailed : ∀ err, ((ofInvocation host i).play fs s).1 ≠ .error err := by
    intro err herr
    exact hf ((writesLast_ofInvocation host i).sameFiles_of_failed hfs herr f)
  revert hf hread hfailed
  rw [ofInvocation]
  split
  · exact fun _ hread => absurd (readOnly_withSource fun text => .done _) hread
  · exact fun _ hread => absurd (readOnly_withSource fun text => .done _) hread
  · rename_i e hlex hparse hemit
    intro hf _ hfailed
    have hemits := emits_emit hfs host s e
    refine ⟨hlex, hparse, e, hemit, ?_⟩
    cases houtput : e.output? with
    | none => exact absurd (congrArg (fs.content? · f) (hemits.printed houtput).1) hf
    | some path =>
      cases hresult : ((emit host e).play fs s).1 with
      | error err => exact absurd hresult (hfailed err)
      | ok out =>
        obtain ⟨-, text, g, -, hleads, -, hframe⟩ := hemits.written path houtput out hresult
        obtain rfl : f = g := by
          by_contra hne
          exact hf (hframe f hne)
        exact ⟨path, rfl, hleads⟩
  · exact fun _ hread => absurd (readOnly_withSource fun text => .done _) hread
  · exact fun _ hread => absurd (.done _) hread

lemma effects_ofInvocation (hfs : fs.Lawful) (host : Host) (i : Invocation) (s : σ) :
    i.Effects host fs s ((ofInvocation host i).play fs s).1
      ((ofInvocation host i).play fs s).2 := by
  constructor
  case failed => exact fun err => (writesLast_ofInvocation host i).sameFiles_of_failed hfs
  case changed => exact fun f => exists_output_of_changed hfs i
  case tokens =>
    intro path hpath
    rw [Option.mem_def] at hpath
    simp only [ofInvocation, hpath]
    exact shows_withSource hfs s path fun text => host.dumpTokens i.json (lex text)
  case program =>
    intro hlex path hpath
    rw [Option.mem_def] at hpath
    simp only [ofInvocation, hlex, hpath]
    exact shows_withSource hfs s path fun text => host.dumpProgram i.json (parse (lex text))
  case emission =>
    intro hlex hparse e he
    rw [Option.mem_def] at he
    simp only [ofInvocation, hlex, hparse, he]
    exact emits_emit hfs host s e
  case counts =>
    intro hlex hparse hemit path hpath
    rw [Option.mem_def] at hpath
    simp only [ofInvocation, hlex, hparse, hemit, hpath]
    exact shows_withSource hfs s path fun text =>
      .ok (path ++ ": " ++ summary (lex text) (parse (lex text)) ++ "\n")
  case nothing =>
    intro hlex hparse hemit hfile
    simp only [ofInvocation, hlex, hparse, hemit, hfile, play]

/-- Nothing but the text of a source file counts. -/
lemma play_inline (host : Host) (i : Invocation) (e : Emission) (h : fs.Holds s path text) :
    (ofInvocation host { i with emit? := some { e with file? := some path, code? := none } }).play
        fs s =
      (ofInvocation host
        { i with emit? := some { e with file? := none, code? := some text } }).play fs s := by
  simp only [ofInvocation]
  cases i.lexFile? with
  | some lexed => rfl
  | none =>
    cases i.parseFile? with
    | some parsed => rfl
    | none =>
      have hfile : Emission.Source { e with file? := some path, code? := none } fs s text :=
        Or.inr ⟨rfl, path, rfl, h⟩
      have hinline : Emission.Source { e with file? := none, code? := some text } fs s text :=
        Or.inl rfl
      exact (play_emit hfile).trans (play_emit hinline).symm

/-- A session does to the files what its invocation asks for or nothing at all, and a source
does the same from a file and inline. -/
theorem effects_of_play (hfs : fs.Lawful) (host : Host) (i : Invocation) (before : σ) :
    i.Effects host fs before ((ofInvocation host i).play fs before).1
      ((ofInvocation host i).play fs before).2 ∧
    ∀ (e : Emission) (path text : String), fs.Holds before path text →
      (ofInvocation host
          { i with emit? := some { e with file? := some path, code? := none } }).play fs before =
        (ofInvocation host
          { i with emit? := some { e with file? := none, code? := some text } }).play fs before :=
  ⟨effects_ofInvocation hfs host i before, fun e _ _ h => play_inline host i e h⟩

/-- A file that its own skeleton is written to. -/
theorem effects_of_play_replaced :
    let before : Folder := ⟨[(["a.c"], .file "int x;".toUTF8)]⟩
    let e : Emission := ⟨some "a.c", none, .python, some "./a.c", some 2, none⟩
    let run := (ofInvocation .standard ⟨some e, none, none, none, false⟩).play Folder.system before
    Folder.system.Lawful ∧ Folder.system.Holds before "a.c" "int x;" ∧ run.1 = .ok "" ∧
      ∃ l, Folder.system.leads? run.2 "./a.c" = some l ∧
        Folder.system.content? run.2 l = some "x = 0\n".toUTF8 := by
  intro before e run
  have hholds : Folder.system.Holds before "a.c" "int x;" :=
    ⟨⟨["a.c"], rfl, rfl⟩, ⟨6, rfl, by decide⟩, rfl⟩
  have hsource : e.Source Folder.system before "int x;" := Or.inr ⟨rfl, "a.c", rfl, hholds⟩
  have hwrite : ∀ path ∈ e.output?,
      (Folder.system.write before path (e.skeleton "int x;").toUTF8).1 = .ok () := by
    rintro path ⟨⟩
    rfl
  have hemits := (effects_of_play Folder.system_lawful .standard
    ⟨some e, none, none, none, false⟩ before).1.emission rfl rfl e rfl
  obtain ⟨out, hout⟩ := hemits.succeeds_iff.mpr ⟨"int x;", hsource, rfl, hwrite⟩
  obtain ⟨rfl, text, l, htext, hleads, hcontent, -⟩ := hemits.written "./a.c" rfl out hout
  have hskeleton : e.skeleton text = "x = 0\n" := by
    rw [← hsource.unique htext]
    decide +kernel
  exact ⟨Folder.system_lawful, hholds, hout, l, hleads, hskeleton ▸ hcontent⟩

end Session

end Scaffold
