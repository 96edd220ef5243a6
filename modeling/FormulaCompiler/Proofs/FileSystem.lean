import FormulaCompiler.FileSystem
import Mathlib.Tactic.SplitIfs

/-!
# Files that are written

A path is followed through directories only, so it still leads to the same place once a file is written where no
directory was. The file then holds what has been written, and every other place is as it was (`CreatesAt.writes`).
-/

namespace FormulaCompiler.FileSystem

variable {fs : FileSystem} {place other : Place} {path : String} {content : ByteArray} {entry : FileEntry}

/-! ### Places -/

theorem put_self (h : place ≠ []) : entry? (fs.put place entry) place = some entry := by
  unfold entry?
  rw [List.isEmpty_eq_false_iff.2 h, if_neg Bool.false_ne_true, put, List.lookup_cons_self]

theorem lookup_filter_of_ne (h : other ≠ place) (entries : List (Place × FileEntry)) :
    (entries.filter fun known => known.1 != place).lookup other = entries.lookup other := by
  induction entries with
  | nil => rfl
  | cons known entries ih =>
      by_cases hknown : known.1 = place
      · have hne : (other == known.1) = false := beq_false_of_ne (hknown ▸ h)
        rw [List.filter_cons, if_neg (by simp [hknown]), ih, List.lookup_cons, hne]
      · rw [List.filter_cons, if_pos (by simp [hknown]), List.lookup_cons, List.lookup_cons, ih]

theorem put_of_ne (h : other ≠ place) : entry? (fs.put place entry) other = fs.entry? other := by
  unfold entry?
  rw [put, List.lookup_cons, beq_false_of_ne h, lookup_filter_of_ne h]

/-! ### Paths -/

/-- Whether a path leads to a file with a certain content. -/
def Holds (fs : FileSystem) (path : String) (content : ByteArray) : Prop :=
  ∃ place, fs.resolve path = .ok place ∧ fs.entry? place = some (.file content)

/-- Whether a path leads to a place where a file can be created or replaced. -/
structure CreatesAt (fs : FileSystem) (path : String) (place : Place) : Prop where
  leads : fs.resolve path = .ok place
  free : fs.entry? place ≠ some .directory

theorem read_eq_ok_iff : fs.read path = .ok content ↔ fs.Holds path content := by
  constructor
  · intro h
    cases hplace : fs.resolve path with
    | error cause =>
        rw [read, hplace] at h
        cases h
    | ok place =>
        simp only [read, hplace, bind, Except.bind] at h
        split at h <;> cases h
        exact ⟨place, hplace, ‹_›⟩
  · rintro ⟨place, hleads, hfile⟩
    simp only [read, hleads, bind, Except.bind, hfile]

theorem follow_of_directory {start : Place} (h : fs.entry? start = some .directory) (name : String)
    (names : List String) : fs.follow start (name :: names) =
      if name = "" ∨ name = "." then fs.follow start names
      else if name = ".." then fs.follow start.dropLast names
      else if nameLimit < name.utf8ByteSize then .error .nameTooLong
      else fs.follow (start ++ [name]) names := by
  rw [follow, h]

theorem directory_of_follow {start : Place} {name : String} {names : List String}
    (h : fs.follow start (name :: names) = .ok place) : fs.entry? start = some .directory := by
  rw [follow] at h
  split at h
  · cases h
  · cases h
  · assumption

/-- Each place on the way is a directory, so none of them is the place that something is put at. -/
theorem follow_put {names : List String} {start : Place} (hleads : fs.follow start names = .ok place)
    (hfree : fs.entry? place ≠ some .directory) : (fs.put place entry).follow start names = .ok place := by
  induction names generalizing start with
  | nil => exact hleads
  | cons name names ih =>
      have hdirectory := directory_of_follow hleads
      have hne : start ≠ place := fun heq => hfree (heq ▸ hdirectory)
      have hput : entry? (fs.put place entry) start = some .directory := (put_of_ne hne).trans hdirectory
      rw [follow_of_directory hdirectory] at hleads
      rw [follow_of_directory hput]
      split_ifs at hleads ⊢
      all_goals exact ih hleads

/-! ### Writing -/

/-- Whether a file system is another one with a file written to it, so that they differ at one place at most. -/
structure Writes (fs after : FileSystem) (path : String) (place : Place) (content : ByteArray) : Prop where
  holds : after.Holds path content
  entry : after.entry? place = some (.file content)
  elsewhere : ∀ other, other ≠ place → after.entry? other = fs.entry? other
  working : after.working = fs.working

namespace CreatesAt

variable (h : fs.CreatesAt path place)
include h

theorem ne_root : place ≠ [] := by
  rintro rfl
  exact h.free rfl

theorem resolve_put : (fs.put place entry).resolve path = .ok place := by
  have hleads := h.leads
  rw [resolve] at hleads ⊢
  split at hleads
  · cases hleads
  · exact follow_put hleads h.free

theorem write_eq : fs.write path content = .ok (fs.put place (.file content)) := by
  simp only [write, h.leads, bind, Except.bind]
  split
  · exact absurd ‹_› h.free
  · rfl

theorem writes : Writes fs (fs.put place (.file content)) path place content where
  holds := ⟨place, h.resolve_put, put_self h.ne_root⟩
  entry := put_self h.ne_root
  elsewhere _ hne := put_of_ne hne
  working := rfl

end CreatesAt

/-- Nothing else lets a file be written. -/
theorem exists_createsAt_of_write {after : FileSystem} (h : fs.write path content = .ok after) :
    ∃ place, fs.CreatesAt path place := by
  cases hplace : fs.resolve path with
  | error cause =>
      rw [write, hplace] at h
      cases h
  | ok place =>
      simp only [write, hplace, bind, Except.bind] at h
      split at h
      · cases h
      · exact ⟨place, hplace, fun hdirectory => ‹∀ _, _› hdirectory⟩

end FormulaCompiler.FileSystem
