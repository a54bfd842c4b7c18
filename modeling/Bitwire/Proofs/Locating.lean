import Bitwire.Proofs.Lexing
import Bitwire.Proofs.Partition
import Bitwire.Proofs.Stopping

/-! Where the error of a source points. The items of a source lie on boundaries of its runes, and a
reading is stopped by one of them or by the end, so that its error is about something that stands
in the source, at the place where it stands. -/
namespace Bitwire

open Text

/-! ## Items lie on boundaries -/

/-- Lexemes are made of whole runes, so that each starts on a boundary. -/
theorem boundary_of_lexemes {src : Bytes} {before after : List Lexeme}
    (h : lexemes src = before ++ after) : Boundary src (before.flatMap Lexeme.bytes).length := by
  refine boundary_iff.mpr ⟨(before.flatMap Lexeme.runes).length, ?_⟩
  rw [← flatMap_runes_lexemes, h, List.flatMap_append, List.take_left]
  simp only [encode, List.flatMap_assoc]
  rfl

theorem exists_lexeme_of_mem {x : Item} {start : Nat} {ls : List Lexeme}
    (h : x ∈ itemsFrom start ls) :
    ∃ before l after, ls = before ++ l :: after ∧
      l.item? (start + (before.flatMap Lexeme.bytes).length) = some x := by
  induction ls generalizing start with
  | nil => cases h
  | cons l ls ih =>
    have hlater (h : x ∈ itemsFrom (start + l.width) ls) : ∃ before l' after,
        l :: ls = before ++ l' :: after ∧
          l'.item? (start + (before.flatMap Lexeme.bytes).length) = some x := by
      obtain ⟨before, l', after, rfl, hx⟩ := ih h
      refine ⟨l :: before, l', after, rfl, ?_⟩
      rwa [List.flatMap_cons, List.length_append, ← Nat.add_assoc]
    rw [itemsFrom] at h
    split at h
    · next item hitem =>
      rcases List.mem_cons.mp h with rfl | h
      · exact ⟨[], l, ls, rfl, hitem⟩
      · exact hlater h
    · exact hlater h

/-- What an item can be, and where it can be. -/
inductive Placed (src : Bytes) : Item → Prop
  | token {start stop : Nat} {kind : Kind} {text : Bytes} :
      Boundary src start → Boundary src stop → Placed src (.token ⟨start, stop, kind, text⟩)
  | bad {start : Nat} {code : Int} :
      Boundary src start → Placed src (.failure (.badCharacter ⟨start, code⟩))

theorem Placed.exists_start {src : Bytes} {t : Token} (h : Placed src (.token t)) :
    ∃ offset : Nat, t.start = offset ∧ Boundary src offset := by
  cases h with
  | token hstart _ => exact ⟨_, rfl, hstart⟩

theorem Placed.exists_endOf {src : Bytes} {ts : List Token}
    (h : ∀ t ∈ ts, Placed src (.token t)) :
    ∃ offset : Nat, endOf 0 ts = offset ∧ Boundary src offset := by
  unfold endOf
  cases hl : ts.getLast? with
  | none => exact ⟨0, rfl, .zero⟩
  | some t =>
    cases h t (List.mem_of_getLast? hl) with
    | token _ hstop => exact ⟨_, rfl, hstop⟩

theorem placed_of_mem_items {src : Bytes} {x : Item} (h : x ∈ items src) : Placed src x := by
  obtain ⟨before, l, after, hl, hx⟩ := exists_lexeme_of_mem h
  rw [Nat.zero_add] at hx
  have hstart := boundary_of_lexemes hl
  have hstop : Boundary src ((before.flatMap Lexeme.bytes).length + l.width) := by
    have hb := boundary_of_lexemes (hl.trans (List.append_cons before l after))
    rwa [List.flatMap_append, List.length_append, List.flatMap_singleton] at hb
  unfold Lexeme.item? at hx
  split at hx
  · cases hx
  · cases hx
  · cases hx
    exact .token hstart hstop
  · obtain ⟨r, -, rfl⟩ := Option.map_eq_some_iff.mp hx
    exact .bad hstart

/-! ## What stops the reading of a source -/

/-- The high bound is to blame if it is no bound, and else the low one if it is none up to the
high one. -/
theorem ofBounds_eq_error_iff {high low : Token} {position : Int} :
    BitType.ofBounds high low = .error position ↔
      bound? high.text = none ∧ position = high.start ∨
        ∃ h, bound? high.text = some h ∧ (∀ l, bound? low.text = some l → h < l) ∧
          position = low.start := by
  unfold BitType.ofBounds
  cases hh : bound? high.text with
  | none => simp [eq_comm]
  | some h =>
    cases hl : bound? low.text with
    | none => simp [eq_comm]
    | some l =>
      by_cases hle : l ≤ h
      · simp [hle, UInt64.not_lt.mpr hle]
      · simp [hle, UInt64.not_le.mp hle, eq_comm]

theorem position_of_ofBounds_error {high low : Token} {position : Int}
    (h : BitType.ofBounds high low = .error position) :
    position = high.start ∨ position = low.start := by
  rcases ofBounds_eq_error_iff.mp h with ⟨-, hp⟩ | ⟨-, -, -, hp⟩
  · exact Or.inl hp
  · exact Or.inr hp

/-- Both bounds of a vector are literals that were read. -/
theorem literal_of_invalid {p : Progress} {ts : List Token} {t : Token} {position : Int}
    (hp : p.Covers ts) (h : p.step t = .invalid position) :
    ∃ bound ∈ ts, bound.kind = .literal ∧ bound.start = position := by
  obtain ⟨b, high, low, rfl, -, hb⟩ := Progress.step_eq_invalid_iff.mp h
  obtain ⟨us, w, l, c, -, rfl, hk⟩ := hp
  simp only [List.map_cons, List.cons.injEq] at hk
  rcases position_of_ofBounds_error hb with rfl | rfl
  · exact ⟨high, by simp, hk.2.2.1, rfl⟩
  · exact ⟨low, by simp, hk.2.2.2.2.1, rfl⟩

/-! ## Errors of a source -/

/-- What the error of a source is about: one of its tokens, a bound among them, its first bad
character, or the end of its last token. -/
inductive Blamed (src : Bytes) : SourceError → Prop
  | token {t : Token} {kinds : List Kind} :
      t ∈ tokens src → Blamed src (.unexpected (some t) t.start (kinds.map Kind.name))
  | extra {t : Token} : t ∈ tokens src → Blamed src (.extraToken t)
  | bound {t : Token} :
      t ∈ tokens src → t.kind = .literal → Blamed src (.invalidToken t.start)
  | character {c : BadCharacter} :
      (lexicalFailures src).head? = some (.badCharacter c) → Blamed src (.invalidCharacter c)
  | ended {kinds : List Kind} : lexicalFailures src = [] →
      Blamed src (.unexpected none (endOf 0 (tokens src)) (kinds.map Kind.name))

/-- The items of a source are tokens and bad characters, so that its errors are all about these. -/
theorem parse_ok_or_blamed (src : Bytes) :
    (∃ d, Design.parse src = .ok d ∧ lexicalFailures src = []) ∨
      ∃ error, Design.parse src = .error (.source error) ∧ Blamed src error := by
  obtain ⟨ts, rest, p, result, hitems, ha, hh, hr⟩ := exists_read_eq (items src)
  obtain ⟨htokens, hfailures⟩ := tokens_of_items_eq hitems
  have hplaced : ∀ x ∈ rest, Placed src x := fun x hx =>
    placed_of_mem_items (hitems ▸ List.mem_append_right _ hx)
  have hstop {t : Token} {after : List Item} (he : rest = .token t :: after) : t ∈ tokens src := by
    simp [htokens, he, Item.token?]
  rw [Design.parse, hr]
  cases hh with
  | finished =>
    rw [List.filterMap_nil, List.append_nil] at htokens
    by_cases hdone : ∃ d, p = .done d
    · obtain ⟨d, rfl⟩ := hdone
      exact Or.inl ⟨d, rfl, hfailures⟩
    · rw [Progress.finish_of_ne_done (not_exists.mp hdone), ← htokens]
      exact Or.inr ⟨_, rfl, .ended hfailures⟩
  | ended => cases hplaced _ List.mem_cons_self
  | failed _ =>
    cases hplaced _ List.mem_cons_self with
    | bad _ => exact Or.inr ⟨_, rfl, .character (by rw [hfailures]; rfl)⟩
  | unexpected _ => exact Or.inr ⟨_, rfl, .token (hstop rfl)⟩
  | extra _ => exact Or.inr ⟨_, rfl, .extra (hstop rfl)⟩
  | invalid hs =>
    obtain ⟨bound, hmem, hk, rfl⟩ := literal_of_invalid (covers_of_advance ha) hs
    exact Or.inr ⟨_, rfl, .bound (htokens ▸ List.mem_append_left _ hmem) hk⟩

/-- What an error that points at an offset says of the source there. -/
def Truthful (src : Bytes) (offset : Nat) : SourceError → Prop
  | .invalidCharacter character =>
    (lexicalFailures src).head? = some (.badCharacter character) ∧ character.position = offset
  | .extraToken t | .unexpected (some t) _ _ => t ∈ tokens src ∧ t.start = offset
  | .unexpected none position _ =>
    lexicalFailures src = [] ∧ endOf 0 (tokens src) = offset ∧ position = offset
  | .invalidToken position =>
    ∃ t ∈ tokens src, t.kind = .literal ∧ t.start = offset ∧ position = offset

theorem Blamed.truthful {src : Bytes} {error : SourceError} (h : Blamed src error) :
    ∃ offset : Nat, error.position = offset ∧ Boundary src offset ∧ Truthful src offset error := by
  have hplaced : ∀ t ∈ tokens src, Placed src (.token t) := fun t ht =>
    placed_of_mem_items (mem_items_of_mem_tokens ht)
  cases h with
  | token ht | extra ht =>
    obtain ⟨offset, he, hb⟩ := (hplaced _ ht).exists_start
    exact ⟨offset, he, hb, ht, he⟩
  | @bound t ht hk =>
    obtain ⟨offset, he, hb⟩ := (hplaced t ht).exists_start
    exact ⟨offset, he, hb, t, ht, hk, he, he⟩
  | character hc =>
    have hmem := mem_items_of_mem_lexicalFailures (List.mem_of_head? hc)
    cases placed_of_mem_items hmem with
    | bad hb => exact ⟨_, rfl, hb, hc, rfl⟩
  | ended hnone =>
    obtain ⟨offset, he, hb⟩ := Placed.exists_endOf hplaced
    exact ⟨offset, he, hb, hnone, he, he⟩

/-- A source is parsed, and then has no bad characters, or its error points at a boundary in it and
says what is there. -/
theorem parse_ok_or_truthful (src : Bytes) :
    (∃ d, Design.parse src = .ok d ∧ lexicalFailures src = []) ∨
      ∃ (error : SourceError) (offset : Nat), Design.parse src = .error (.source error) ∧
        error.position = offset ∧ offset ≤ src.length ∧ Boundary src offset ∧
        Truthful src offset error := by
  refine (parse_ok_or_blamed src).imp_right ?_
  rintro ⟨error, hparse, hblamed⟩
  obtain ⟨offset, hpos, hb, htruthful⟩ := hblamed.truthful
  exact ⟨error, offset, hparse, hpos, hb.le_length, hb, htruthful⟩

end Bitwire
