import Bitwire.Proofs.Declaring
import Bitwire.Proofs.Truncation

/-! The bounds of a vector. Wherever a type may start, the six tokens of a vector give the binding in
front of them the type that their two numerals stand for, or else the closing bracket ends the reading at
the bound that is to blame. Before the bracket no text counts, so that a missing token is blamed first. -/
namespace Bitwire

open Grammar

/-! ## Tokens that are missing -/

/-- After the tokens comes one of a kind: anything else is blamed, and the kind alone is named. -/
def Wants (ts : List Token) (kind : Kind) : Prop :=
  (∀ t rest, t.kind ≠ kind → Design.read (ts.map .token ++ .token t :: rest) =
    ⟨.error (.source (.unexpected (some t) t.start [kind.name])), ts.length + 1⟩) ∧
  ∀ rest, pull rest 0 = .failure .endOfInput → Design.read (ts.map .token ++ rest) =
    ⟨.error (.source (.unexpected none (endOf 0 ts) [kind.name])), ts.length + 1⟩

theorem wants_of_expected {ts : List Token} {p : Progress} {kind : Kind}
    (ha : Progress.start.advance ts = some p) (hp : p.expected = [kind]) : Wants ts kind := by
  have hdone : ∀ d, p ≠ .done d := by
    rintro d rfl
    cases hp
  have hbit : ¬ ∃ b, p = .afterBit b := by
    rintro ⟨b, rfl⟩
    simp only [Progress.expected, Role.closers] at hp
    split at hp <;> cases hp
  constructor
  · intro t rest ht
    have hs : p.step t = .unexpected := by
      rw [Progress.step_eq_unexpected_iff hdone, hp, List.mem_singleton]
      exact ⟨ht, fun h => hbit h.2⟩
    rw [Design.read, Progress.run_append ha, Progress.run_of_halts (.unexpected hs),
      Progress.unexpectedAt, hp, Nat.zero_add]
    rfl
  · intro rest hrest
    rw [read_of_end ha hdone hrest, Progress.unexpectedAt, hp]
    rfl

/-! ## Bounds -/

theorem bound?_eq_none_iff {text : Bytes} :
    bound? text = none ↔ ∀ n < 2 ^ 64, ¬ IsNumeral text n := by
  rw [Option.eq_none_iff_forall_ne_some]
  constructor
  · intro h n hn ht
    exact h _ (bound?_eq_some_iff.mpr ⟨n, ht, hn, rfl⟩)
  · intro h v hv
    obtain ⟨n, ht, hn, -⟩ := bound?_eq_some_iff.mp hv
    exact h n hn ht

theorem ofBounds_eq_vector_iff {high low : Token} {h l : UInt64} :
    BitType.ofBounds high low = .ok (.vector h l) ↔
      IsNumeral high.text h.toNat ∧ IsNumeral low.text l.toNat ∧ l.toNat ≤ h.toNat := by
  rw [ofBounds_eq_ok_iff]
  constructor
  · rintro ⟨n, m, hn, hm, hle, hlt, he⟩
    cases he
    rw [UInt64.toNat_ofNat_of_lt' hlt, UInt64.toNat_ofNat_of_lt' (Nat.lt_of_le_of_lt hle hlt)]
    exact ⟨hn, hm, hle⟩
  · rintro ⟨hn, hm, hle⟩
    exact ⟨h.toNat, l.toNat, hn, hm, hle, h.toNat_lt, by rw [UInt64.ofNat_toNat, UInt64.ofNat_toNat]⟩

section Vector

variable {before : List Token} {b : Binding} {word left high colon low right : Token}

theorem advance_bounds (hb : Typed b before)
    (hk : [word, left, high, colon, low, right].map Token.kind =
      [.bitWord, .openBracket, .literal, .colon, .literal, .closeBracket]) :
    Progress.start.advance (before ++ [word, left, high]) = some (.boundColon b high) ∧
      Progress.start.advance (before ++ [word, left, high, colon, low]) =
        some (.boundsEnd b high low) := by
  rw [Progress.advance_append hb.advance, Progress.advance_append hb.advance]
  constructor <;> simp_all [Progress.advance, Progress.step, Progress.only]

/-- The closing bracket decides: on a type, or on the bound that is to blame. -/
theorem read_bracket (hb : Typed b before)
    (hk : [word, left, high, colon, low, right].map Token.kind =
      [.bitWord, .openBracket, .literal, .colon, .literal, .closeBracket]) :
    (∀ type, BitType.ofBounds high low = .ok type →
      Progress.start.advance (before ++ [word, left, high, colon, low, right]) =
        some (.afterType b type)) ∧
    ∀ position, BitType.ofBounds high low = .error position → ∀ rest,
      Design.read ((before ++ [word, left, high, colon, low, right]).map .token ++ rest) =
        ⟨.error (.source (.invalidToken position)), before.length + 6⟩ := by
  have ha := (advance_bounds hb hk).2
  have hright : right.kind = .closeBracket := by
    simp only [List.map_cons, List.cons.injEq] at hk
    exact hk.2.2.2.2.2.1
  have hsnoc : before ++ [word, left, high, colon, low, right] =
      before ++ [word, left, high, colon, low] ++ [right] := by
    simp
  rw [hsnoc]
  constructor
  · intro type htype
    exact Progress.advance_snoc ha (by simp only [Progress.step, hright, htype, if_true])
  · intro position hposition rest
    have hs := Progress.step_eq_invalid_iff.mpr ⟨b, high, low, rfl, hright, hposition⟩
    rw [List.map_append, List.append_assoc, Design.read, Progress.run_append ha]
    refine (Progress.run_of_halts (.invalid hs) _).trans ?_
    simp

end Vector

/-! ## The types of a design -/

def Design.types (d : Design) : List BitType :=
  d.ports.map Port.type ++ d.stmts.filterMap fun s => s.declared?.map Prod.snd

theorem exists_typePhrase {ts : List Token} {d : Design} (h : SourceFile ts d) {type : BitType}
    (ht : type ∈ d.types) : ∃ us, TypePhrase us type := by
  cases h with
  | file _ hps _ hss _ =>
    rcases List.mem_append.mp ht with ht | ht
    · obtain ⟨p, hp, rfl⟩ := List.mem_map.mp ht
      obtain ⟨us, hu, -⟩ := hps.exists_phrase hp
      cases hu with
      | port _ _ htype => exact ⟨_, htype⟩
    · obtain ⟨s, hs, he⟩ := List.mem_filterMap.mp ht
      obtain ⟨us, hu, -⟩ := hss.exists_phrase hs
      cases hu with
      | assign => cases he
      | declare _ htype _ | declareAssign _ htype _ _ _ =>
        cases he
        exact ⟨_, htype⟩

theorem le_of_typePhrase {ts : List Token} {h l : UInt64} (ht : TypePhrase ts (.vector h l)) :
    l.toNat ≤ h.toNat := by
  cases ht with
  | vector _ _ _ hle hlt =>
    rwa [UInt64.toNat_ofNat_of_lt' hlt, UInt64.toNat_ofNat_of_lt' (Nat.lt_of_le_of_lt hle hlt)]

/-- The six tokens of a vector, wherever a type may start, give the binding the vector of two bounds
exactly when their texts are numerals of these bounds and the low one is not above the high one. If the
high text is no numeral below `2 ^ 64` the reading ends at its start, and else, if the low one is none
up to the high one, at that one's start; in both cases with the closing bracket, so that a missing
colon or bracket is blamed before any text is. Hence the bounds of every vector that is read are in
order. -/
theorem vector_read_iff_numerals :
    (∀ (before : List Token) (b : Binding) (word left high colon low right : Token),
      Typed b before →
      [word, left, high, colon, low, right].map Token.kind =
        [.bitWord, .openBracket, .literal, .colon, .literal, .closeBracket] →
      let ts := before ++ [word, left, high, colon, low, right]
      (∀ h l : UInt64, Yields ts b (.vector h l) ↔
        IsNumeral high.text h.toNat ∧ IsNumeral low.text l.toNat ∧ l.toNat ≤ h.toNat) ∧
      ((∀ n < 2 ^ 64, ¬ IsNumeral high.text n) → ∀ rest, Design.read (ts.map .token ++ rest) =
        ⟨.error (.source (.invalidToken high.start)), before.length + 6⟩) ∧
      (∀ n < 2 ^ 64, IsNumeral high.text n → (∀ m ≤ n, ¬ IsNumeral low.text m) →
        ∀ rest, Design.read (ts.map .token ++ rest) =
          ⟨.error (.source (.invalidToken low.start)), before.length + 6⟩) ∧
      Wants (before ++ [word, left, high]) .colon ∧
      Wants (before ++ [word, left, high, colon, low]) .closeBracket) ∧
    ∀ (stream : List Item) (d : Design), (Design.read stream).result = .ok d →
      ∀ h l, .vector h l ∈ d.types → l.toNat ≤ h.toNat ∧ h.toNat < 2 ^ 64 := by
  refine ⟨fun before b word left high colon low right hb hk => ?_, fun stream d hok h l hmem => ?_⟩
  · obtain ⟨hcolon, hend⟩ := advance_bounds hb hk
    obtain ⟨htaken, hblamed⟩ := read_bracket hb hk
    refine ⟨fun h l => ⟨fun hy => ?_, fun hn => ?_⟩, fun hhigh => ?_, fun n hn hhigh hlow => ?_,
      wants_of_expected hcolon rfl, wants_of_expected hend rfl⟩
    · obtain ⟨⟨rest, d, hok⟩, hall⟩ := hy
      cases hbounds : BitType.ofBounds high low with
      | error position =>
        rw [hblamed position hbounds rest] at hok
        cases hok
      | ok type =>
        have hdeclared := (yields_of_advance (htaken type hbounds)).2 rest d hok
        rw [hdeclared.unique (hall rest d hok)] at hbounds
        exact ofBounds_eq_vector_iff.mp hbounds
    · exact yields_of_advance (htaken _ (ofBounds_eq_vector_iff.mpr hn))
    · exact hblamed _ (ofBounds_eq_error_iff.mpr (Or.inl ⟨bound?_eq_none_iff.mpr hhigh, rfl⟩))
    · refine hblamed _ (ofBounds_eq_error_iff.mpr (Or.inr ⟨UInt64.ofNat n, ?_, fun l hl => ?_, rfl⟩))
      · exact bound?_eq_some_iff.mpr ⟨n, hhigh, hn, rfl⟩
      · obtain ⟨m, hm, hlt, rfl⟩ := bound?_eq_some_iff.mp hl
        rw [UInt64.lt_iff_toNat_lt, UInt64.toNat_ofNat_of_lt' hn, UInt64.toNat_ofNat_of_lt' hlt]
        exact Nat.lt_of_not_le fun hle => hlow m hle hm
  · obtain ⟨ts, -, -, ha⟩ := Progress.exists_advance_of_run_ok hok
    obtain ⟨us, hu⟩ := exists_typePhrase (advance_start_iff.mp ha) hmem
    exact ⟨le_of_typePhrase hu, h.toNat_lt⟩

/-- A port with leading zeros in its bounds, the same port with a high bound one too large, and with
its bounds in the wrong order. -/
theorem vector_of_leading_zeros :
    let mark (kind : Kind) (text : Bytes) (start : Int) : Token := ⟨start, start + 1, kind, text⟩
    let before : List Token := [mark .topWord [] 0, mark .modWord [] 1, mark .identifier (utf8 "m") 2,
      mark .openParen [] 3, mark .inWord [] 4, mark .identifier (utf8 "a") 5, mark .colon [] 6]
    let b : Binding := ⟨⟨utf8 "m", [], []⟩, .port .input, utf8 "a"⟩
    let vector (high low : String) : List Token := [mark .bitWord [] 7, mark .openBracket [] 8,
      mark .literal (utf8 high) 9, mark .colon [] 10, mark .literal (utf8 low) 11,
      mark .closeBracket [] 12]
    let whole := before ++ vector "0007" "00" ++
      [mark .closeParen [] 13, mark .openBrace [] 14, mark .closeBrace [] 15]
    let d : Design := ⟨utf8 "m", [⟨.input, utf8 "a", .vector 7 0⟩], []⟩
    (Typed b before ∧ Yields (before ++ vector "0007" "00") b (.vector 7 0)) ∧
      (∀ rest, Design.read ((before ++ vector "18446744073709551616" "0").map .token ++ rest) =
        ⟨.error (.source (.invalidToken 9)), 13⟩) ∧
      (∀ rest, Design.read ((before ++ vector "0" "7").map .token ++ rest) =
        ⟨.error (.source (.invalidToken 11)), 13⟩) ∧
      (Design.read (whole.map .token)).result = .ok d ∧ .vector 7 0 ∈ d.types ∧
        (0 : UInt64).toNat ≤ (7 : UInt64).toNat := by
  intro mark before b vector whole d
  have hb : Typed b before := covers_of_advance (p := .bindingType b) rfl
  have hd : (Design.read (whole.map .token)).result = .ok d := rfl
  have hmem : .vector 7 0 ∈ d.types := by decide
  have hlarge : numeral? (utf8 "18446744073709551616") = some (2 ^ 64) := rfl
  have hseven : numeral? (utf8 "7") = some 7 := rfl
  obtain ⟨hread, hordered⟩ := vector_read_iff_numerals
  refine ⟨⟨hb, ?_⟩, ?_, ?_, hd, hmem, (hordered _ d hd 7 0 hmem).1⟩
  · exact ((hread before b _ _ _ _ _ _ hb rfl).1 7 0).mpr
      ⟨isNumeral_iff.mpr rfl, isNumeral_iff.mpr rfl, by decide⟩
  · refine (hread before b _ _ _ _ _ _ hb rfl).2.1 fun n hn ht => ?_
    have hvalue := (isNumeral_iff.mp ht).symm.trans hlarge
    exact Nat.ne_of_lt hn (Option.some.inj hvalue)
  · refine (hread before b _ _ _ _ _ _ hb rfl).2.2.1 0 (by decide) (isNumeral_iff.mpr rfl) ?_
    intro m hm ht
    have hvalue := Option.some.inj ((isNumeral_iff.mp ht).symm.trans hseven)
    omega

end Bitwire
