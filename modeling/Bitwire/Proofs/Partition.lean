import Bitwire.Proofs.Scanning

/-! The items of a source partition it: their byte ranges follow each other inside the source,
what lies between them is skipped, and each item is right for the bytes of its range. -/
namespace Bitwire

open Text

/-- A stretch of blanks and comments before what comes after it. -/
inductive Gap : (text after : Bytes) → Prop
  | nil {after : Bytes} : Gap [] after
  | cons {text gap after : Bytes} :
      Skipped text (gap ++ after) → Gap gap after → Gap (text ++ gap) after

/-- The item is right for the bytes from offset `i` up to offset `j`. -/
def ReadsAt (src : Bytes) (i j : Nat) : Item → Prop
  | .token t => t.start = i ∧ t.stop = j ∧ Spelled t.kind (slice src i j) (src.drop j) ∧
      t.text = if t.kind.hasText then slice src i j else []
  | .failure (.badCharacter b) => b.position = i ∧
      ∃ c, Stuck (slice src i j) (src.drop j) c ∧ b.code = c.toNat
  | .failure _ => False

/-- The items of a source from offset `i` on: gaps and non-empty ranges take turns up to its end. -/
inductive Partition (src : Bytes) : (i : Nat) → List Item → Prop
  | done {i : Nat} : i ≤ src.length → Gap (src.drop i) [] → Partition src i []
  | item {i j k : Nat} {x : Item} {xs : List Item} :
      i ≤ j → Gap (slice src i j) (src.drop j) → j < k → k ≤ src.length → ReadsAt src j k x →
      Partition src k xs → Partition src i (x :: xs)

/-! ## Ranges -/

theorem length_slice {src : Bytes} {i j : Nat} (hj : j ≤ src.length) :
    (slice src i j).length = j - i := by
  simp [slice, Nat.min_eq_left hj]

theorem slice_append_drop {src : Bytes} {i j : Nat} (hij : i ≤ j) :
    slice src i j ++ src.drop j = src.drop i := by
  have hd : src.drop j = (src.drop i).drop (j - i) := by
    rw [List.drop_drop, Nat.add_sub_cancel' hij]
  rw [slice, List.drop_take, hd, List.take_append_drop]

theorem slice_append_slice {src : Bytes} {i j k : Nat} (hij : i ≤ j) (hjk : j ≤ k) :
    slice src i j ++ slice src j k = slice src i k := by
  apply (List.append_left_inj (src.drop k)).mp
  rw [List.append_assoc, slice_append_drop hjk, slice_append_drop hij,
    slice_append_drop (Nat.le_trans hij hjk)]

/-- What the range of a text at an offset holds, and what follows it. -/
theorem range_of_drop_eq {src text after : Bytes} {i : Nat} (h : src.drop i = text ++ after) :
    slice src i (i + text.length) = text ∧ src.drop (i + text.length) = after := by
  have hd : src.drop (i + text.length) = after := by
    rw [← List.drop_drop, h, List.drop_left]
  refine ⟨?_, hd⟩
  apply (List.append_left_inj (src.drop (i + text.length))).mp
  rw [slice_append_drop (Nat.le_add_right _ _), hd, h]

theorem add_length_le {src text after : Bytes} {i : Nat} (hi : i ≤ src.length)
    (h : src.drop i = text ++ after) : i + text.length ≤ src.length := by
  have hl := congrArg List.length h
  rw [List.length_drop, List.length_append] at hl
  omega

/-! ## Partitions and scans -/

theorem scans_of_gap {start : Nat} {gap after : Bytes} {xs : List Item} (h : Gap gap after)
    (hs : Scans (start + gap.length) after xs) : Scans start (gap ++ after) xs := by
  induction h generalizing start with
  | nil => exact hs
  | @cons text gap after ht _ ih =>
    rw [List.append_assoc]
    refine .skip ht (ih ?_)
    rwa [Nat.add_assoc, ← List.length_append]

theorem scans_of_partition {src : Bytes} {i : Nat} {xs : List Item} (h : Partition src i xs) :
    Scans i (src.drop i) xs := by
  induction h with
  | done _ hg => simpa using scans_of_gap hg .done
  | @item i j k x xs hij hg hjk hk hx _ ih =>
    have hstart : i + (slice src i j).length = j := by
      rw [length_slice (by omega)]
      omega
    have hstop : j + (slice src j k).length = k := by
      rw [length_slice hk]
      omega
    rw [← slice_append_drop hij]
    refine scans_of_gap hg ?_
    rw [hstart, ← slice_append_drop (Nat.le_of_lt hjk)]
    have hrest : Scans (j + (slice src j k).length) (src.drop k) xs := by rwa [hstop]
    match x, hx with
    | .token ⟨start, stop, kind, text⟩, ⟨hs, ht, hspell, htext⟩ =>
      simp only at hs ht hspell htext
      subst hs ht
      rw [htext]
      have hscan := Scans.token hspell hrest
      rwa [show ((j : Int) + (slice src j k).length : Int) = k by omega] at hscan
    | .failure (.badCharacter ⟨position, code⟩), ⟨hp, c, hstuck, hc⟩ =>
      simp only at hp hc
      subst hp hc
      exact .bad hstuck hrest

/-- A skipped text before a partition lengthens its first gap. -/
theorem partition_of_skipped {src text : Bytes} {i : Nat} {xs : List Item} (hi : i ≤ src.length)
    (hd : src.drop i = text ++ src.drop (i + text.length))
    (ht : Skipped text (src.drop (i + text.length))) (h : Partition src (i + text.length) xs) :
    Partition src i xs := by
  cases h with
  | done _ hg =>
    refine .done hi ?_
    rw [hd]
    exact .cons (by rwa [List.append_nil]) hg
  | item hij hg hjk hk hx hxs =>
    refine .item (by omega) ?_ hjk hk hx hxs
    rw [← slice_append_slice (Nat.le_add_right _ _) hij, (range_of_drop_eq hd).1]
    exact .cons (by rwa [slice_append_drop hij]) hg

/-- An item at the very start of a partition has an empty gap before it. -/
theorem partition_of_item {src text after : Bytes} {i : Nat} {x : Item} {xs : List Item}
    (hi : i ≤ src.length) (hd : src.drop i = text ++ after) (hne : text ≠ [])
    (hx : ReadsAt src i (i + text.length) x) (h : Partition src (i + text.length) xs) :
    Partition src i (x :: xs) := by
  have hpos := List.length_pos_iff.mpr hne
  refine .item (Nat.le_refl i) ?_ (by omega) (add_length_le hi hd) hx h
  have he : slice src i i = [] := by simp [slice]
  rw [he]
  exact .nil

theorem partition_of_scans {src s : Bytes} {i : Nat} {xs : List Item} (h : Scans i s xs)
    (hi : i ≤ src.length) (hd : src.drop i = s) : Partition src i xs := by
  induction h with
  | done => exact .done hi (hd ▸ .nil)
  | skip ht _ ih =>
    have hafter := (range_of_drop_eq hd).2
    exact partition_of_skipped hi (by rw [hd, hafter]) (by rwa [hafter])
      (ih (add_length_le hi hd) hafter)
  | token ht _ ih =>
    obtain ⟨htext, hafter⟩ := range_of_drop_eq hd
    refine partition_of_item hi hd ht.ne_nil ?_ (ih (add_length_le hi hd) hafter)
    exact ⟨rfl, by simp, by rwa [htext, hafter], by rw [htext]⟩
  | @bad _ c _ _ _ ht _ ih =>
    obtain ⟨htext, hafter⟩ := range_of_drop_eq hd
    refine partition_of_item hi hd ht.ne_nil ?_ (ih (add_length_le hi hd) hafter)
    exact ⟨rfl, c, by rwa [htext, hafter], rfl⟩

theorem Partition.exists_readsAt {src : Bytes} {i : Nat} {x : Item} {xs : List Item}
    (h : Partition src i xs) (hx : x ∈ xs) : ∃ j k, j < k ∧ k ≤ src.length ∧ ReadsAt src j k x := by
  induction h with
  | done => cases hx
  | item _ _ hjk hk hr _ ih =>
    rcases List.mem_cons.mp hx with rfl | hx
    · exact ⟨_, _, hjk, hk, hr⟩
    · exact ih hx

theorem exists_readsAt_of_mem_items {src : Bytes} {x : Item} (h : x ∈ items src) :
    ∃ j k, j < k ∧ k ≤ src.length ∧ ReadsAt src j k x :=
  (partition_of_scans (scans_iff.mpr rfl) (Nat.zero_le _) rfl).exists_readsAt h

theorem mem_items_of_mem_tokens {src : Bytes} {t : Token} (h : t ∈ tokens src) :
    .token t ∈ items src := by
  obtain ⟨x, hx, hxt⟩ := List.mem_filterMap.mp h
  cases x with
  | token u =>
    cases hxt
    exact hx
  | failure f => cases hxt

theorem mem_items_of_mem_lexicalFailures {src : Bytes} {f : Failure}
    (h : f ∈ lexicalFailures src) : .failure f ∈ items src := by
  obtain ⟨x, hx, hxf⟩ := List.mem_filterMap.mp h
  cases x with
  | token t => cases hxf
  | failure g =>
    cases hxf
    exact hx

theorem Partition.length_le {src : Bytes} {i : Nat} {xs : List Item} (h : Partition src i xs) :
    i + xs.length ≤ src.length := by
  induction h with
  | done hi _ => exact hi
  | item hij _ hjk _ _ _ ih =>
    rw [List.length_cons]
    omega

/-- No item of a source is the end itself, so that the end comes right after the items. -/
theorem pull_items_eq_end_iff (src : Bytes) (call : Nat) :
    pull (items src) call = .failure .endOfInput ↔ (items src).length ≤ call := by
  rw [pull, List.getD_eq_getElem?_getD]
  constructor
  · intro h
    refine Nat.le_of_not_lt fun hlt => ?_
    rw [List.getElem?_eq_getElem hlt, Option.getD_some] at h
    obtain ⟨_, _, -, -, hreads⟩ := exists_readsAt_of_mem_items (h ▸ List.getElem_mem hlt)
    exact hreads
  · intro h
    rw [List.getElem?_eq_none h, Option.getD_none]

/-- The items of a source are a partition of it, and no other list is. There are no more of them
than bytes, and every call after them gives the end. -/
theorem partition_iff_items (src : Bytes) :
    (∀ xs, Partition src 0 xs ↔ xs = items src) ∧ (items src).length ≤ src.length ∧
      ∀ call, pull (items src) call = .failure .endOfInput ↔ (items src).length ≤ call := by
  have hiff (xs : List Item) : Partition src 0 xs ↔ xs = items src := by
    constructor
    · intro h
      exact scans_iff.mp (scans_of_partition h)
    · intro h
      exact partition_of_scans (scans_iff.mpr h) (Nat.zero_le _) rfl
  refine ⟨hiff, ?_, pull_items_eq_end_iff src⟩
  simpa using ((hiff (items src)).mpr rfl).length_le

end Bitwire
