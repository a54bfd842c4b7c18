import Bitwire.Proofs.Coverage

/-! How a reading stops. It takes tokens until one item ends it: the end of the input, a failure of
the stream, or a token that the stage reached so far does not take. That stage and that item settle
the outcome. -/
namespace Bitwire

/-- The end of the last token, and `last` if there is none. -/
def endOf (last : Int) (ts : List Token) : Int := (ts.getLast?.map Token.stop).getD last

theorem endOf_cons (last : Int) (t : Token) (ts : List Token) :
    endOf last (t :: ts) = endOf t.stop ts := by
  cases h : ts.getLast? <;> simp [endOf, List.getLast?_cons, h]

namespace Progress

/-- What a stage makes of a stream that it takes no token from. -/
inductive Halts (p : Progress) (last : Int) : List Item → Except Failure Design → Prop
  | finished : Halts p last [] (p.finish last)
  | ended {rest : List Item} : Halts p last (.failure .endOfInput :: rest) (p.finish last)
  | failed {f : Failure} {rest : List Item} :
      f ≠ .endOfInput → Halts p last (.failure f :: rest) (.error f.surface)
  | unexpected {t : Token} {rest : List Item} : p.step t = .unexpected →
      Halts p last (.token t :: rest) (.error (p.unexpectedAt (some t) t.start))
  | invalid {t : Token} {rest : List Item} {position : Int} : p.step t = .invalid position →
      Halts p last (.token t :: rest) (.error (.source (.invalidToken position)))
  | extra {t : Token} {rest : List Item} : p.step t = .extra →
      Halts p last (.token t :: rest) (.error (.source (.extraToken t)))

theorem run_of_halts {p : Progress} {last : Int} {xs : List Item} {result : Except Failure Design}
    (h : p.Halts last xs result) (pulled : Nat) : p.run last pulled xs = ⟨result, pulled + 1⟩ := by
  cases h with
  | finished | ended => rfl
  | @failed f rest hf =>
    cases f with
    | endOfInput => exact absurd rfl hf
    | badCharacter | source | tree | other | wrapped => rfl
  | unexpected hs | invalid hs | extra hs => simp only [run, hs]

/-- Tokens that are taken only move the stage, the end of what was read and the count. -/
theorem run_append {p q : Progress} {ts : List Token} (h : p.advance ts = some q) (last : Int)
    (pulled : Nat) (xs : List Item) :
    p.run last pulled (ts.map .token ++ xs) = q.run (endOf last ts) (pulled + ts.length) xs := by
  induction ts generalizing p last pulled with
  | nil =>
    cases h
    rfl
  | cons t ts ih =>
    simp only [advance] at h
    split at h
    · next r hr =>
      simp only [List.map_cons, List.cons_append, run, hr]
      rw [ih h, endOf_cons, List.length_cons, Nat.add_right_comm, Nat.add_assoc]
    · cases h

theorem advance_append_iff {p r : Progress} {ts us : List Token} :
    p.advance (ts ++ us) = some r ↔ ∃ q, p.advance ts = some q ∧ q.advance us = some r := by
  constructor
  · intro h
    induction ts generalizing p with
    | nil => exact ⟨p, rfl, h⟩
    | cons t ts ih =>
      simp only [List.cons_append, advance] at h ⊢
      split at h
      · exact ih h
      · cases h
  · rintro ⟨q, hq, hr⟩
    rw [advance_append hq, hr]

theorem exists_step_of_advance {p r : Progress} {t : Token} {ts : List Token}
    (h : p.advance (t :: ts) = some r) : ∃ q, p.step t = .next q ∧ q.advance ts = some r := by
  simp only [advance] at h
  split at h
  · next q hq => exact ⟨q, hq, h⟩
  · cases h

theorem finish_of_ne_done {p : Progress} (h : ∀ d, p ≠ .done d) (last : Int) :
    p.finish last = .error (p.unexpectedAt none last) := by
  cases p with
  | done d => exact absurd rfl (h d)
  | _ => rfl

/-- A bound is blamed only by the bracket that closes a vector. -/
theorem step_eq_invalid_iff {p : Progress} {t : Token} {position : Int} :
    p.step t = .invalid position ↔ ∃ b high low, p = .boundsEnd b high low ∧
      t.kind = .closeBracket ∧ BitType.ofBounds high low = .error position := by
  cases p with
  | boundsEnd b high low =>
    simp only [step]
    split
    · next h => cases hb : BitType.ofBounds high low <;> simp [h, hb]
    · next h => simp [h]
  | portStart | stmtStart =>
    simp only [step]
    split <;> simp
  | afterBit b =>
    simp only [step, Binding.close]
    repeat' split
    all_goals simp
  | afterType b type =>
    simp only [step, Binding.close]
    repeat' split
    all_goals simp
  | operand c level =>
    simp only [step, Context.readOperand]
    repeat' split
    all_goals simp
  | operator c pending value =>
    simp only [step, Context.readOperator]
    repeat' split
    all_goals simp
  | done => simp [step]
  | _ =>
    simp only [step, only]
    split <;> simp

theorem exists_halts (p : Progress) (last : Int) (xs : List Item) :
    ∃ ts rest q result, xs = ts.map .token ++ rest ∧ p.advance ts = some q ∧
      q.Halts (endOf last ts) rest result := by
  induction xs generalizing p last with
  | nil => exact ⟨[], [], p, _, rfl, rfl, .finished⟩
  | cons x xs ih =>
    cases x with
    | token t =>
      cases hs : p.step t with
      | next r =>
        obtain ⟨ts, rest, q, result, rfl, ha, hh⟩ := ih r t.stop
        refine ⟨t :: ts, rest, q, result, rfl, ?_, ?_⟩
        · rw [advance_cons hs, ha]
        · rwa [endOf_cons]
      | unexpected => exact ⟨[], _, p, _, rfl, rfl, .unexpected hs⟩
      | invalid position => exact ⟨[], _, p, _, rfl, rfl, .invalid hs⟩
      | extra => exact ⟨[], _, p, _, rfl, rfl, .extra hs⟩
    | failure f =>
      by_cases hf : f = .endOfInput
      · subst hf
        exact ⟨[], _, p, _, rfl, rfl, .ended⟩
      · exact ⟨[], _, p, _, rfl, rfl, .failed hf⟩

end Progress

/-- Every reading takes some tokens and is stopped by the item after them. -/
theorem exists_read_eq (xs : List Item) :
    ∃ ts rest p result, xs = ts.map .token ++ rest ∧ Progress.start.advance ts = some p ∧
      p.Halts (endOf 0 ts) rest result ∧ Design.read xs = ⟨result, ts.length + 1⟩ := by
  obtain ⟨ts, rest, p, result, rfl, ha, hh⟩ := Progress.start.exists_halts 0 xs
  refine ⟨ts, rest, p, result, rfl, ha, hh, ?_⟩
  rw [Design.read, Progress.run_append ha, Progress.run_of_halts hh, Nat.zero_add]

theorem covers_of_advance {p : Progress} {ts : List Token}
    (h : Progress.start.advance ts = some p) : p.Covers ts :=
  @covers_advance .start p [] ts rfl h

theorem exists_read_tokens_eq (ts : List Token) :
    ∃ before after p result, ts = before ++ after ∧ Progress.start.advance before = some p ∧
      p.Halts (endOf 0 before) (after.map .token) result ∧
      Design.read (ts.map .token) = ⟨result, before.length + 1⟩ := by
  obtain ⟨before, rest, p, result, hts, ha, hh, hr⟩ := exists_read_eq (ts.map .token)
  obtain ⟨us, after, rfl, hus, rfl⟩ := List.map_eq_append_iff.mp hts
  obtain rfl := List.map_injective_iff.mpr Item.token_injective hus
  exact ⟨us, after, p, result, rfl, ha, hh, hr⟩

end Bitwire
