import Mathlib.Tactic.SplitIfs
import RuleGraph.CommandLine.Directory
import RuleGraph.Proofs.DistinctNames

/-!
# Paths lead where they led

Writing a file keeps every path that goes through directories (`Directory.enter_put`), so a path
that was written leads to the file that holds what was written (`Directory.read_put`), and no other
file changes.
-/

namespace RuleGraph

/-- The keys after a value is put: those there were, and the one it is put under. -/
theorem OrderedMap.mem_keys_put {κ α : Type} [DecidableEq κ] {key other : κ} {value : α}
    {m : OrderedMap κ α} : other ∈ keys (put key value m) ↔ other = key ∨ other ∈ keys m := by
  by_cases h : key ∈ keys m
  · rw [keys_put_of_mem h]
    exact ⟨.inr, fun hor => hor.elim (fun heq => heq ▸ h) id⟩
  · rw [put_of_not_mem h, keys, List.map_append, List.mem_append]
    exact or_comm.trans (or_congr List.mem_singleton Iff.rfl)

namespace CommandLine.Directory

variable {dir dir' : Directory} {home names names' : List String} {path name part : String}
  {bytes : ByteArray}

/-- A path leads to a file of a name, or to a place where one can be put. -/
structure Names (dir : Directory) (home : List String) (path name : String) : Prop where
  place : dir.place home path = .ok (.file name) ∨ dir.place home path = .ok (.free name)
  noSlash : endsInSlash path = false

/-! ## Files and directories after a file is written -/

theorem isFile_put_self : isFile (OrderedMap.put name bytes dir) name := by
  rw [isFile, OrderedMap.find?_put_self]
  rfl

theorem isFile_put_of_ne {other : String} (h : other ≠ name) :
    isFile (OrderedMap.put name bytes dir) other = dir.isFile other := by
  rw [isFile, OrderedMap.find?_put_of_ne h, isFile]

theorem isDirectory_put {other : String} (h : dir.isDirectory home other) :
    isDirectory (OrderedMap.put name bytes dir) home other := by
  obtain ⟨file, hfile, hbelow⟩ := List.any_eq_true.mp h
  refine List.any_eq_true.mpr ⟨file, ?_, hbelow⟩
  rcases List.mem_cons.mp hfile with hhome | hfile
  · exact List.mem_cons.mpr (.inl hhome)
  · exact List.mem_cons.mpr (.inr (OrderedMap.mem_keys_put.mpr (.inr hfile)))

/-- A name is that of a file, or no directory has it. -/
def Admits (dir : Directory) (home : List String) (name : String) : Prop :=
  dir.isFile name ∨ ¬ dir.isDirectory home name

/-- Where a directory is entered, it is still entered after a file is written. -/
theorem enter_put (hname : dir.Admits home name) (h : dir.enter home names part = .ok names') :
    enter (OrderedMap.put name bytes dir) home names part = .ok names' := by
  unfold enter at h ⊢
  split_ifs at h ⊢ with hstay hlong hup
  · exact h
  · exact h
  · -- the way goes down: the directory that is entered is not the file that is written
    simp only at h ⊢
    split_ifs at h with hfile hdirectory
    have hne : fileName home (names ++ [part]) ≠ name := by
      rintro rfl
      exact hname.elim hfile fun hno => hno hdirectory
    rw [isFile_put_of_ne hne, if_neg hfile, if_pos (isDirectory_put hdirectory)]
    exact h

theorem foldlM_enter_put (hname : dir.Admits home name) {parts : List String}
    (h : parts.foldlM (dir.enter home) names = .ok names') :
    parts.foldlM (enter (OrderedMap.put name bytes dir) home) names = .ok names' := by
  induction parts generalizing names with
  | nil => exact h
  | cons part parts ih =>
    rw [List.foldlM_cons, bind_eq_ok_iff] at h ⊢
    obtain ⟨next, hnext, hrest⟩ := h
    exact ⟨next, enter_put hname hnext, ih hrest⟩

/-! ## Where a path leads after it is written -/

theorem admits_of_lookUp (bytes : ByteArray)
    (h : dir.lookUp home names part = .file name ∨ dir.lookUp home names part = .free name) :
    dir.Admits home name ∧
      lookUp (OrderedMap.put name bytes dir) home names part = .file name := by
  unfold lookUp at h ⊢
  split_ifs at h ⊢ with hdots hlong
  · simp at h
  · simp at h
  · simp only at h ⊢
    by_cases hfile : dir.isFile (fileName home (names ++ [part]))
    · simp only [if_pos hfile, Place.file.injEq, reduceCtorEq, or_false] at h
      subst h
      exact ⟨.inl hfile, if_pos isFile_put_self⟩
    · rw [if_neg hfile] at h
      by_cases hdirectory : dir.isDirectory home (fileName home (names ++ [part]))
      · simp [if_pos hdirectory] at h
      · simp only [if_neg hdirectory, Place.free.injEq, reduceCtorEq, false_or] at h
        subst h
        exact ⟨.inr hdirectory, if_pos isFile_put_self⟩

theorem place_put (bytes : ByteArray)
    (h : dir.place home path = .ok (.file name) ∨ dir.place home path = .ok (.free name)) :
    place (OrderedMap.put name bytes dir) home path = .ok (.file name) := by
  unfold place at h ⊢
  split at h
  · simp at h
  · rename_i hlong
    rw [if_neg hlong]
    simp only at h ⊢
    split at h
    · split at h <;> simp at h
    · rename_i last before hparts
      rw [bind_eq_ok_iff, bind_eq_ok_iff, ← exists_or] at h
      simp only [pure_eq_ok_iff, ← and_or_left] at h
      obtain ⟨names, hnames, hlast⟩ := h
      obtain ⟨hadmits, hfile⟩ := admits_of_lookUp bytes hlast
      exact bind_eq_ok_iff.mpr ⟨names, foldlM_enter_put hadmits hnames, by rw [hfile]; rfl⟩

/-- What was written to a path is read from it. -/
theorem read_put (h : dir.Names home path name) :
    read (OrderedMap.put name bytes dir) home path = .ok (some bytes) := by
  rw [read, place_put bytes h.place]
  show (if endsInSlash path then _ else _) = _
  rw [h.noSlash, OrderedMap.find?_put_self]
  rfl

/-- A path can be written exactly if it names a file, and then that file alone changes. -/
theorem write_eq_ok_iff :
    dir.write home path bytes = .ok dir' ↔
      ∃ name, dir.Names home path name ∧ dir' = OrderedMap.put name bytes dir := by
  unfold write
  rw [bind_eq_ok_iff]
  constructor
  · rintro ⟨place, hplace, hwrite⟩
    cases place with
    | file name | free name =>
      cases hslash : endsInSlash path with
      | true => simp [hslash] at hwrite
      | false =>
        simp only [hslash, Bool.false_eq_true, if_false, pure_eq_ok_iff] at hwrite
        exact ⟨name, ⟨by simp [hplace], hslash⟩, hwrite.symm⟩
    | directory | barred why => cases hwrite
  · rintro ⟨name, ⟨hplace | hplace, hslash⟩, rfl⟩
    · exact ⟨_, hplace, by simp [hslash, pure_eq_ok_iff]⟩
    · exact ⟨_, hplace, by simp [hslash, pure_eq_ok_iff]⟩

end CommandLine.Directory

end RuleGraph
