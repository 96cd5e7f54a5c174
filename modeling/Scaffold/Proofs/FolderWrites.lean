import Mathlib.Data.List.DropRight
import Scaffold.Command.FileSystem

/-!
# Files that are written

A write to a folder puts one file into one location and leaves all others as they were. The
path that was written to leads to the file afterwards, since none of the folders it goes
through is touched. So a folder is a file system that a command can count on.
-/
namespace Scaffold

namespace Folder

lemma lookup_filter_of_ne {entries : List (Location × Entry)} {l k : Location} (h : k ≠ l) :
    (entries.filter (·.1 ≠ l)).lookup k = entries.lookup k := by
  induction entries with
  | nil => rfl
  | cons entry entries ih =>
    obtain ⟨m, e⟩ := entry
    by_cases hm : m = l
    · have hkm : (k == m) = false := by simpa [hm] using h
      rw [List.filter_cons_of_neg (by simp [hm]), ih, List.lookup_cons, hkm]
    · rw [List.filter_cons_of_pos (by simp [hm]), List.lookup_cons, List.lookup_cons, ih]

theorem get?_insert_of_ne (folder : Folder) {l k : Location} (e : Entry) (h : k ≠ l) :
    (folder.insert l e).get? k = folder.get? k := by
  have hkl : (k == l) = false := by simpa using h
  simp only [get?, insert, List.lookup_append, lookup_filter_of_ne h, List.lookup_cons, hkl,
    List.lookup_nil, Option.or_none]

/-- Where no folder is, an entry can be put. -/
theorem get?_insert_self {folder : Folder} {l : Location} (e : Entry)
    (h : folder.get? l ≠ some .folder) : (folder.insert l e).get? l = some e := by
  have hfixed : ¬(l = [] ∨ l = ["/"]) := by
    intro hl
    exact h (by rw [get?, if_pos hl])
  have hnone : (folder.entries.filter (·.1 ≠ l)).lookup l = none := by
    rw [List.lookup_eq_none_iff]
    intro entry hentry
    have hne : entry.1 ≠ l := by simpa using (List.mem_filter.mp hentry).2
    simpa using hne.symm
  simp only [get?, if_neg hfixed, insert, List.lookup_append, hnone, List.lookup_cons,
    beq_self_eq_true, Option.none_or]

section Insert

variable {folder : Folder} {l k next : Location} (content : ByteArray)

lemma get?_of_isFolder (h : folder.isFolder k = .ok ()) : folder.get? k = some .folder := by
  rw [isFolder] at h
  split at h
  · assumption
  · contradiction
  · contradiction

/-- A folder stays one when a file is put where no folder is. -/
lemma isFolder_insert (hl : folder.get? l ≠ some .folder) (h : folder.isFolder k = .ok ()) :
    (folder.insert l (.file content)).isFolder k = .ok () := by
  have hk := get?_of_isFolder h
  have hne : k ≠ l := by
    rintro rfl
    exact hl hk
  rw [isFolder, get?_insert_of_ne folder _ hne, hk]

lemma enter_insert (hl : folder.get? l ≠ some .folder) {part : String}
    (h : folder.enter k part = .ok next) :
    (folder.insert l (.file content)).enter k part = .ok next := by
  obtain ⟨⟨⟩, hfolder, hnext⟩ := bind_eq_ok_iff.mp h
  rw [enter, isFolder_insert content hl hfolder]
  exact hnext

/-- A walk that arrives goes through folders only, so it arrives after the write too. -/
lemma walk_insert (hl : folder.get? l ≠ some .folder) {parts : List String}
    (h : folder.walk k parts = .ok next) :
    (folder.insert l (.file content)).walk k parts = .ok next := by
  induction parts generalizing k with
  | nil => exact h
  | cons part rest ih =>
    obtain ⟨entered, hentered, h⟩ := bind_eq_ok_iff.mp h
    rw [walk, enter_insert content hl hentered]
    exact ih h

end Insert

lemma walk_append (folder : Folder) (l : Location) (first second : List String) :
    folder.walk l (first ++ second) = folder.walk l first >>= (folder.walk · second) := by
  induction first generalizing l with
  | nil => rfl
  | cons part rest ih =>
    rw [List.cons_append, walk, walk]
    cases folder.enter l part with
    | error e => rfl
    | ok next => exact ih next

/-- A path that ends with a name in an existing folder, where no folder has that name. -/
structure Leads (folder : Folder) (path : String) (l : Location) (name : String) : Prop where
  parts_eq : parts path = (parts path).dropLast ++ [name]
  name_ne : name ≠ "" ∧ name ≠ "." ∧ name ≠ ".."
  walk_eq : folder.walk (start path) (parts path).dropLast = .ok l
  isFolder_eq : folder.isFolder l = .ok ()
  not_folder : folder.get? (l ++ [name]) ≠ some .folder

lemma ne_empty_of_getLast?_rdropWhile {ps : List String} {name : String}
    (h : (ps.rdropWhile (· = "")).getLast? = some name) : name ≠ "" := by
  obtain ⟨before, hbefore⟩ := List.getLast?_eq_some_iff.mp h
  have hne : ps.rdropWhile (· = "") ≠ [] := by simp [hbefore]
  have hlast := List.rdropWhile_last_not _ _ hne
  simpa [hbefore] using hlast

/-- A destination is a name of its own in a folder that the rest of the path leads to. -/
lemma exists_leads_of_destination {folder : Folder} {path : String} {k : Location}
    (h : folder.destination path = .ok k) :
    ∃ l name, k = l ++ [name] ∧ folder.Leads path l name := by
  have hkept : ((parts path).reverse.dropWhile (· = "")).reverse =
    (parts path).rdropWhile (· = "") := rfl
  simp only [destination, hkept] at h
  split at h
  · contradiction
  rename_i name hname
  obtain ⟨l, hwalk, hrest⟩ := bind_eq_ok_iff.mp h
  obtain ⟨⟨⟩, hfolder, hk⟩ := bind_eq_ok_iff.mp hrest
  split at hk
  · contradiction
  rename_i hparts
  simp only [not_or, Nat.not_lt] at hparts
  have hall : (parts path).rdropWhile (· = "") = parts path :=
    (List.rdropWhile_prefix _ _).eq_of_length_le hparts.1
  have hempty := ne_empty_of_getLast?_rdropWhile hname
  rw [hall] at hname hwalk
  obtain ⟨before, hbefore⟩ := List.getLast?_eq_some_iff.mp hname
  split at hk
  · contradiction
  rename_i hnot
  refine ⟨l, name, (Except.ok.inj hk).symm, ?_⟩
  constructor
  case parts_eq => rw [hbefore, List.dropLast_concat]
  case name_ne => exact ⟨hempty, hparts.2⟩
  case walk_eq => exact hwalk
  case isFolder_eq => exact hfolder
  case not_folder => exact hnot

/-- A path leads to what was written to it. -/
theorem locate_insert {folder : Folder} {path name : String} {l : Location}
    (h : folder.Leads path l name) (content : ByteArray) :
    (folder.insert (l ++ [name]) (.file content)).locate path = .ok (l ++ [name]) := by
  have hwalk := walk_insert content h.not_folder h.walk_eq
  have hfolder := isFolder_insert content h.not_folder h.isFolder_eq
  rw [locate, h.parts_eq, walk_append, hwalk]
  simp [walk, enter, hfolder, h.name_ne, bind, Except.bind, pure, Except.pure]

lemma content?_eq_some_of_read {folder : Folder} {path : String} {bytes : ByteArray}
    (h : folder.read path = .ok bytes) :
    ∃ l, folder.locate path = .ok l ∧ folder.content? l = some bytes := by
  obtain ⟨e, hentry, hbytes⟩ := bind_eq_ok_iff.mp h
  obtain ⟨l, hlocate, he⟩ := bind_eq_ok_iff.mp hentry
  split at he
  · rename_i found hget
    cases he
    cases e with
    | folder => contradiction
    | file content =>
      cases hbytes
      exact ⟨l, hlocate, by rw [content?, hget]⟩
  · contradiction

/-- What a path leads to is read and written, and nothing else is. -/
theorem system_lawful : system.Lawful := by
  constructor
  case read_ok =>
    intro folder path bytes h
    obtain ⟨l, hlocate, hcontent⟩ := content?_eq_some_of_read h
    exact ⟨l, congrArg Except.toOption hlocate, hcontent⟩
  case write_ok =>
    intro folder path bytes after h
    simp only [system, write] at h
    split at h
    · rename_i k hk
      obtain ⟨l, name, rfl, hleads⟩ := exists_leads_of_destination hk
      obtain rfl := (Prod.mk.inj h).2
      refine ⟨l ++ [name], congrArg Except.toOption (locate_insert hleads bytes), ?_, ?_⟩
      · simp only [system, content?, get?_insert_self _ hleads.not_folder]
      · intro g hg
        simp only [system, content?, get?_insert_of_ne folder _ hg]
    · simp at h
  case write_error =>
    intro folder path bytes e after h
    simp only [system, write] at h
    split at h
    · simp at h
    · obtain rfl := (Prod.mk.inj h).2
      exact fun l => rfl

end Folder

end Scaffold
