import Bitwire.Command.Files
import Mathlib.Data.List.Basic

/-! What writing a file changes: the file can be read back under its path, which leads where it led
before, and there is nothing new at any other place, directories included. -/
namespace Bitwire.Command.Disk

/-! ## Entries -/

def places (d : Disk) : List Path := d.files.map Prod.fst

/-- The device, the working directory or a file lies at the path or below it. -/
def Leads (d : Disk) (path : Path) : Prop :=
  path <+: fullDevice ∨ path <+: d.workingDirectory ∨ ∃ place ∈ d.places, path <+: place

theorem Leads.of_isPrefix {d : Disk} {p q : Path} (h : d.Leads q) (hp : p <+: q) : d.Leads p := by
  obtain h | h | ⟨place, hmem, h⟩ := h
  · exact Or.inl (hp.trans h)
  · exact Or.inr (Or.inl (hp.trans h))
  · exact Or.inr (Or.inr ⟨place, hmem, hp.trans h⟩)

theorem leads_iff (d : Disk) (p : Path) : d.Leads p ↔ p.isPrefixOf fullDevice ∨
    p.isPrefixOf d.workingDirectory ∨ d.files.any (fun file => p.isPrefixOf file.1) := by
  simp [Leads, places]

instance (d : Disk) (p : Path) : Decidable (d.Leads p) := decidable_of_iff _ (d.leads_iff p).symm

theorem entry_congr {d e : Disk} {p : Path} (hl : d.files.lookup p = e.files.lookup p)
    (hd : d.Leads p ↔ e.Leads p) : d.entry p = e.entry p := by
  simp only [entry, hl, ← leads_iff, hd]

theorem leads_of_entry {d : Disk} {p : Path} (h : d.entry p = .directory) : d.Leads p := by
  simp only [entry, ← leads_iff] at h
  split at h
  · cases h
  · split at h
    · cases h
    · split at h
      · assumption
      · cases h

theorem entry_fullDevice (d : Disk) : d.entry fullDevice = .device := if_pos rfl

/-! ## Putting a file in its place -/

theorem put_workingDirectory (d : Disk) (place : Path) (content : Bytes) :
    (d.put place content).workingDirectory = d.workingDirectory := by
  simp only [put]
  split <;> rfl

theorem any_iff_mem_places (d : Disk) (place : Path) :
    d.files.any (·.1 == place) = true ↔ place ∈ d.places := by
  simp [places]

theorem mem_places_put (d : Disk) (place p : Path) (content : Bytes) :
    p ∈ (d.put place content).places ↔ p ∈ d.places ∨ p = place := by
  simp only [put, any_iff_mem_places]
  split
  · next hmem =>
    have hsame : (d.files.map fun file => if file.1 = place then (place, content) else file).map
        Prod.fst = d.places := by
      rw [List.map_map]
      refine List.map_congr_left fun file _ => ?_
      simp only [Function.comp_apply]
      split
      · next h => exact h.symm
      · rfl
    rw [places, hsame, or_iff_left_of_imp fun h => h ▸ hmem]
  · simp [places]

theorem leads_put_iff (d : Disk) (place p : Path) (content : Bytes) :
    (d.put place content).Leads p ↔ d.Leads p ∨ p <+: place := by
  simp only [Leads, put_workingDirectory, mem_places_put, or_and_right, exists_or, or_assoc,
    exists_eq_left]

theorem lookup_replaced (files : List (Path × Bytes)) (place p : Path) (content : Bytes) :
    (files.map fun file => if file.1 = place then (place, content) else file).lookup p =
      if p = place then (files.lookup p).map fun _ => content else files.lookup p := by
  induction files with
  | nil => simp
  | cons file files ih =>
    obtain ⟨q, old⟩ := file
    by_cases hpq : p = q
    · subst hpq
      by_cases hp : p = place <;> simp [hp]
    · have hbeq : (p == q) = false := beq_eq_false_iff_ne.mpr hpq
      by_cases hq : q = place
      · subst hq
        simpa [List.lookup_cons, hbeq, hpq] using ih
      · simpa [List.lookup_cons, hbeq, hq] using ih

theorem lookup_isSome_iff (d : Disk) (p : Path) :
    (d.files.lookup p).isSome ↔ p ∈ d.places := by
  simp [List.lookup_isSome_iff, places]

theorem lookup_put (d : Disk) (place p : Path) (content : Bytes) :
    (d.put place content).files.lookup p =
      if p = place then some content else d.files.lookup p := by
  simp only [put, any_iff_mem_places, ← lookup_isSome_iff]
  split
  · next hsome =>
    obtain ⟨old, hold⟩ := Option.isSome_iff_exists.mp hsome
    rw [lookup_replaced]
    split
    · next hp => rw [hp, hold, Option.map_some]
    · rfl
  · next hnone =>
    rw [List.lookup_append]
    by_cases hp : p = place
    · subst hp
      simp [Option.not_isSome_iff_eq_none.mp hnone]
    · have hbeq : (p == place) = false := beq_eq_false_iff_ne.mpr hp
      simp [List.lookup_cons, hbeq, hp]

/-! ## Following a path -/

/-- A path is followed through directories only, so that the directory it ends in was there. -/
theorem leads_of_follow {d : Disk} {directory place : Path} {names : List Bytes}
    (hd : d.Leads directory) (h : d.follow directory names = .ok place) :
    d.Leads place.dropLast := by
  fun_induction follow d directory names with
  | case1 directory =>
    cases h
    exact hd.of_isPrefix (List.dropLast_prefix _)
  | case2 directory name rest hname ih => exact ih hd h
  | case3 directory rest _ ih => exact ih (hd.of_isPrefix (List.dropLast_prefix _)) h
  | case4 directory name =>
    cases h
    rwa [List.dropLast_concat]
  | case5 directory name rest _ _ _ he ih => exact ih (leads_of_entry he) h
  | case6 | case7 | case8 => cases h

theorem leads_of_resolve {d : Disk} {path : Bytes} {place : Path}
    (h : d.resolve path = .ok place) : d.Leads place.dropLast := by
  simp only [resolve] at h
  split at h
  · cases h
  · split at h
    · exact leads_of_follow (Or.inl List.nil_prefix) h
    · exact leads_of_follow (Or.inr (Or.inl (List.prefix_refl _))) h

/-- A disk that keeps the directories of another follows every path that can be followed there. -/
theorem follow_mono {d e : Disk} (he : ∀ p, d.entry p = .directory → e.entry p = .directory)
    {directory place : Path} {names : List Bytes} (h : d.follow directory names = .ok place) :
    e.follow directory names = .ok place := by
  fun_induction follow d directory names with
  | case1 directory => exact h
  | case2 directory name rest hname ih =>
    rw [follow, if_pos hname]
    exact ih h
  | case3 directory rest hname ih =>
    rw [follow, if_neg hname, if_pos rfl]
    exact ih h
  | case4 directory name hname hup =>
    rw [follow, if_neg hname, if_neg hup, if_pos rfl]
    exact h
  | case5 directory name rest hname hup hrest hd ih =>
    rw [follow, if_neg hname, if_neg hup, if_neg hrest, he _ hd]
    exact ih h
  | case6 | case7 | case8 => cases h

theorem resolve_mono {d e : Disk} (hw : e.workingDirectory = d.workingDirectory)
    (he : ∀ p, d.entry p = .directory → e.entry p = .directory) {path : Bytes} {place : Path}
    (h : d.resolve path = .ok place) : e.resolve path = .ok place := by
  simp only [resolve, hw] at h ⊢
  by_cases hnil : path = []
  · rw [if_pos hnil] at h
    cases h
  · rw [if_neg hnil] at h ⊢
    split at h
    · next hroot =>
      rw [if_pos hroot]
      exact follow_mono he h
    · next hroot =>
      rw [if_neg hroot]
      exact follow_mono he h

/-! ## Writing -/

theorem entry_put_self (d : Disk) {place : Path} (hp : place ≠ fullDevice) (content : Bytes) :
    (d.put place content).entry place = .file content := by
  simp only [entry, if_neg hp, lookup_put, if_pos]

theorem entry_put_of_ne {d : Disk} {place p : Path} (content : Bytes)
    (hd : d.Leads place.dropLast) (hp : p ≠ place) :
    (d.put place content).entry p = d.entry p := by
  refine entry_congr ?_ ?_
  · rw [lookup_put, if_neg hp]
  · rw [leads_put_iff, or_iff_left_of_imp]
    intro hpre
    -- a path on the way to the new file leads at most to its directory
    obtain rfl | ⟨directory, name, rfl⟩ := List.eq_nil_or_concat' place
    · exact absurd (List.prefix_nil.mp hpre) hp
    · rw [List.dropLast_concat] at hd
      obtain h | h := List.prefix_concat_iff.mp hpre
      · exact absurd h hp
      · exact hd.of_isPrefix h

/-- A disk with one file written: the path leads to the same place as before and is read back
there, and nothing is different at any other place. -/
structure Stored (before after : Disk) (path content : Bytes) : Prop where
  readBack : after.read path = .ok content
  elsewhere : ∃ place, before.resolve path = .ok place ∧ after.resolve path = .ok place ∧
    ∀ other, other ≠ place → after.entry other = before.entry other

theorem exists_put_of_write {before after : Disk} {path content : Bytes}
    (h : before.write path content = .ok after) :
    ∃ place, before.resolve path = .ok place ∧ before.entry place ≠ .directory ∧
      place ≠ fullDevice ∧ after = before.put place content := by
  simp only [write] at h
  split at h
  · cases h
  · next place hplace =>
    split at h
    · cases h
    · next hfile =>
      simp only [not_or, ne_eq, Decidable.not_not] at hfile
      obtain ⟨hnamed, hfile⟩ := hfile
      rw [hnamed, ite_self] at hplace
      split at h
      · cases h
      · next hdevice =>
        cases h
        exact ⟨place, hplace, hfile, fun he => hdevice (he ▸ entry_fullDevice before), rfl⟩

/-- A write is refused before the file is open, or it stays without effect. -/
theorem action_of_write {d : Disk} {path content : Bytes} {e : FileError}
    (h : d.write path content = .error e) : e.action = .opening ∨ e.action = .writing := by
  simp only [write] at h
  split at h
  · cases h
    exact Or.inl rfl
  · split at h
    · cases h
      exact Or.inl rfl
    · split at h
      · cases h
        exact Or.inr rfl
      · cases h

theorem stored_of_write {before after : Disk} {path content : Bytes}
    (h : before.write path content = .ok after) : Stored before after path content := by
  obtain ⟨place, hplace, hfile, hdevice, rfl⟩ := exists_put_of_write h
  have hother : ∀ other, other ≠ place →
      (before.put place content).entry other = before.entry other :=
    fun other hne => entry_put_of_ne content (leads_of_resolve hplace) hne
  have hagain : (before.put place content).resolve path = .ok place := by
    refine resolve_mono (put_workingDirectory ..) (fun p hp => ?_) hplace
    have hne : p ≠ place := fun he => hfile (he ▸ hp)
    rw [hother p hne, hp]
  refine ⟨?_, place, hplace, hagain, hother⟩
  simp only [read, hagain, entry_put_self before hdevice]

end Bitwire.Command.Disk
