import Bitwire.Proofs.Erasure
import Bitwire.Proofs.Pulling

/-! Layout never changes meaning. Where the items of a stream stand is passed through to the errors and
plays no part in reading: forgetting all places before a step or after it comes to the same. So two
streams that differ in nothing but layout are read to the same tree, or stopped at the same call by
the same error, and two sources that lex to such streams are compiled alike. -/
namespace Bitwire

/-! ## Forgetting places -/

/-- The token without its place. -/
def Token.unplaced (t : Token) : Token := ⟨0, 0, t.kind, t.text⟩

/-- The token without its place, and without a text that its kind makes up for. -/
def Token.bare (t : Token) : Token := ⟨0, 0, t.kind, if t.kind.hasText then t.text else []⟩

@[simp] theorem Token.kind_bare (t : Token) : t.bare.kind = t.kind := rfl

theorem Token.bare_of_hasText {t : Token} (h : t.kind.hasText) : t.bare = t.unplaced := by
  simp [bare, unplaced, h]

namespace Progress

/-- The only tokens that a stage keeps are the bounds of a vector. -/
def unplaced : Progress → Progress
  | boundColon b high => boundColon b high.unplaced
  | lowBound b high => lowBound b high.unplaced
  | boundsEnd b high low => boundsEnd b high.unplaced low.unplaced
  | p => p

end Progress

def Move.unplaced : Move → Move
  | next p => next p.unplaced
  | invalid _ => invalid 0
  | m => m

@[simp] theorem Move.unplaced_eq_unexpected_iff {m : Move} :
    m.unplaced = .unexpected ↔ m = .unexpected := by
  cases m <;> simp [unplaced]

@[simp] theorem Move.unplaced_eq_extra_iff {m : Move} : m.unplaced = .extra ↔ m = .extra := by
  cases m <;> simp [unplaced]

theorem Move.exists_of_unplaced_eq_invalid {m : Move} {position : Int}
    (h : m.unplaced = .invalid position) : ∃ position', m = .invalid position' := by
  cases m with
  | invalid position' => exact ⟨position', rfl⟩
  | next | unexpected | extra => cases h

namespace Progress

theorem only_bare {kind : Kind} {t : Token} {p q : Progress}
    (h : t.kind = kind → q = p.unplaced) : only kind t.bare q = (only kind t p).unplaced := by
  unfold only
  by_cases hk : t.kind = kind
  · simp [hk, h hk, Move.unplaced]
  · simp [hk, Move.unplaced]

theorem close_unplaced (b : Binding) (type : BitType) (kind : Kind) :
    (b.close type kind).unplaced = b.close type kind := by
  unfold Binding.close
  cases b.role <;> cases kind <;> rfl

theorem readOperand_bare (c : Context) (level : Level) (t : Token) :
    c.readOperand level t.bare = (c.readOperand level t).unplaced := by
  obtain ⟨start, stop, kind, text⟩ := t
  cases kind <;> rfl

theorem closeLevel_unplaced (c : Context) (value : Expr) :
    (c.closeLevel value).unplaced = c.closeLevel value := by
  unfold Context.closeLevel
  cases c.outer <;> rfl

theorem readOperator_bare (c : Context) (pending : Pending) (value : Expr) (t : Token) :
    c.readOperator pending value t.bare = (c.readOperator pending value t).unplaced := by
  unfold Context.readOperator
  rw [Token.kind_bare]
  split
  · rfl
  · split
    · simp [Move.unplaced, closeLevel_unplaced]
    · rfl

theorem ofBounds_unplaced (high low : Token) :
    BitType.ofBounds high.unplaced low.unplaced = (BitType.ofBounds high low).mapError fun _ => 0 := by
  simp only [BitType.ofBounds, Token.unplaced]
  cases bound? high.text with
  | none => rfl
  | some h =>
    cases bound? low.text with
    | none => rfl
    | some l => by_cases hle : l ≤ h <;> simp [hle, Except.mapError]

/-- A step does not look at places: they can be forgotten before it or after it. -/
theorem step_bare (p : Progress) (t : Token) : p.unplaced.step t.bare = (p.step t).unplaced := by
  cases p with
  | portStart d | stmtStart d =>
    obtain ⟨start, stop, kind, text⟩ := t
    cases kind <;> rfl
  | afterMod | bindingName =>
    refine only_bare fun hk => ?_
    simp [Token.bare, hk, Kind.hasText, unplaced]
  | highBound | lowBound =>
    refine only_bare fun hk => ?_
    rw [Token.bare_of_hasText (by simp [hk, Kind.hasText])]
    rfl
  | afterBit b =>
    by_cases hk : t.kind = .openBracket
    · simp [step, unplaced, hk, Move.unplaced]
    · simp [step, unplaced, hk, close_unplaced]
  | afterType b type => exact (close_unplaced b type t.kind).symm
  | boundsEnd b high low =>
    simp only [step, unplaced, Token.kind_bare, ofBounds_unplaced]
    split
    · cases BitType.ofBounds high low <;> rfl
    · rfl
  | operand c level => exact readOperand_bare c level t
  | operator c pending value => exact readOperator_bare c pending value t
  | done d => rfl
  | _ => exact only_bare fun _ => rfl

theorem advance_bare (p : Progress) (ts : List Token) :
    p.unplaced.advance (ts.map Token.bare) = (p.advance ts).map unplaced := by
  induction ts generalizing p with
  | nil => rfl
  | cons t ts ih =>
    simp only [List.map_cons, advance, step_bare]
    cases p.step t with
    | next q => exact ih q
    | unexpected | invalid | extra => rfl

theorem expected_unplaced (p : Progress) : p.unplaced.expected = p.expected := by
  cases p <;> rfl

theorem unplaced_eq_done_iff {p : Progress} {d : Design} : p.unplaced = .done d ↔ p = .done d := by
  cases p <;> simp [unplaced]

end Progress

/-! ## Streams that differ in layout only -/

/-- Two items that differ at most in their places, and in texts that their kind makes up for. -/
inductive Item.Alike : Item → Item → Prop
  | token {t u : Token} : t.kind = u.kind → (t.kind.hasText → t.text = u.text) →
      Alike (.token t) (.token u)
  | ended : Alike (.failure .endOfInput) (.failure .endOfInput)
  | badCharacter {c d : BadCharacter} : c.code = d.code →
      Alike (.failure (.badCharacter c)) (.failure (.badCharacter d))

theorem Item.Alike.exists_token (t : Token) (y : Item) (h : Item.Alike (.token t) y) :
    ∃ u, y = .token u ∧ t.bare = u.bare := by
  cases h with
  | @token t u hk ht =>
    refine ⟨u, rfl, ?_⟩
    by_cases hx : t.kind.hasText
    · simp [Token.bare, ← hk, hx, ht hx]
    · simp [Token.bare, ← hk, hx]

/-- The end of the token that the call before gave, and zero if there was none. -/
def endBefore (stream : List Item) : Nat → Int
  | 0 => 0
  | call + 1 =>
    match pull stream call with
    | .token t => t.stop
    | .failure _ => 0

/-- Errors of one kind that two streams were stopped by at the same call. What they blame was given
by the same call to each. -/
inductive SameError (xs ys : List Item) (last : Nat) : SourceError → SourceError → Prop
  | invalidToken {call : Nat} {t u : Token} : call < last → pull xs call = .token t →
      pull ys call = .token u → SameError xs ys last (.invalidToken t.start) (.invalidToken u.start)
  | tooShort {expected : List Bytes} : pull xs last = .failure .endOfInput →
      pull ys last = .failure .endOfInput → SameError xs ys last
        (.unexpected none (endBefore xs last) expected) (.unexpected none (endBefore ys last) expected)
  | unexpected {t u : Token} {expected : List Bytes} : pull xs last = .token t →
      pull ys last = .token u → SameError xs ys last
        (.unexpected (some t) t.start expected) (.unexpected (some u) u.start expected)
  | extraToken {t u : Token} : pull xs last = .token t → pull ys last = .token u →
      SameError xs ys last (.extraToken t) (.extraToken u)
  | invalidCharacter {c d : BadCharacter} : pull xs last = .failure (.badCharacter c) →
      pull ys last = .failure (.badCharacter d) → c.code = d.code →
      SameError xs ys last (.invalidCharacter c) (.invalidCharacter d)

inductive SameOutcome {α : Type} (xs ys : List Item) (last : Nat) :
    Except Failure α → Except Failure α → Prop
  | ok {a : α} : SameOutcome xs ys last (.ok a) (.ok a)
  | error {e e' : SourceError} : SameError xs ys last e e' →
      SameOutcome xs ys last (.error (.source e)) (.error (.source e'))

theorem pull_token {ts : List Token} {call : Nat} {t : Token} (h : ts[call]? = some t)
    (rest : List Item) : pull (ts.map .token ++ rest) call = .token t := by
  obtain ⟨hlt, rfl⟩ := List.getElem?_eq_some_iff.mp h
  simp [pull, List.getElem?_append_left, hlt]

theorem endBefore_tokens (ts : List Token) (rest : List Item) :
    endBefore (ts.map .token ++ rest) ts.length = endOf 0 ts := by
  rcases ts.eq_nil_or_concat' with rfl | ⟨us, t, rfl⟩
  · rfl
  · have hp : pull ((us ++ [t]).map .token ++ rest) us.length = .token t :=
      pull_token (by simp) rest
    rw [List.length_append, List.length_singleton, endBefore, hp, endOf]
    simp

/-! ## Reading and compiling them -/

/-- Which bound is to blame is settled by the texts. -/
theorem blame_of_text_eq {high low high' low' : Token} {position position' : Int}
    (hh : high.text = high'.text) (hl : low.text = low'.text)
    (h : BitType.ofBounds high low = .error position)
    (h' : BitType.ofBounds high' low' = .error position') :
    position = high.start ∧ position' = high'.start ∨
      position = low.start ∧ position' = low'.start := by
  rw [ofBounds_eq_error_iff, ← hh, ← hl] at h'
  rcases ofBounds_eq_error_iff.mp h with ⟨hn, hp⟩ | ⟨n, hn, -, hp⟩
  · rcases h' with ⟨-, hp'⟩ | ⟨n', hn', -, -⟩
    · exact Or.inl ⟨hp, hp'⟩
    · rw [hn] at hn'
      cases hn'
  · rcases h' with ⟨hn', -⟩ | ⟨-, -, -, hp'⟩
    · rw [hn] at hn'
      cases hn'
    · exact Or.inr ⟨hp, hp'⟩

theorem step_unplaced_eq {p q : Progress} {t u : Token} (hpq : p.unplaced = q.unplaced)
    (htu : t.bare = u.bare) : (q.step u).unplaced = (p.step t).unplaced := by
  rw [← Progress.step_bare, ← Progress.step_bare, hpq, htu]

/-- The end of the input finds two stages that differ in places only both complete, or both in
need of the same. -/
theorem sameOutcome_of_end {p q : Progress} (hpq : p.unplaced = q.unplaced) {xs ys : List Item}
    {last : Nat} (hx : pull xs last = .failure .endOfInput)
    (hy : pull ys last = .failure .endOfInput) :
    SameOutcome xs ys last (p.finish (endBefore xs last)) (q.finish (endBefore ys last)) := by
  by_cases hd : ∃ d, p = .done d
  · obtain ⟨d, rfl⟩ := hd
    obtain rfl := Progress.unplaced_eq_done_iff.mp hpq.symm
    exact .ok
  · have hp : ∀ d, p ≠ .done d := fun d h => hd ⟨d, h⟩
    have hq : ∀ d, q ≠ .done d := by
      rintro d rfl
      exact hp d (Progress.unplaced_eq_done_iff.mp hpq)
    have hexpected : p.expected = q.expected := by
      rw [← p.expected_unplaced, hpq, q.expected_unplaced]
    rw [Progress.finish_of_ne_done hp, Progress.finish_of_ne_done hq, Progress.unexpectedAt,
      Progress.unexpectedAt, hexpected]
    exact .error (.tooShort hx hy)

/-- A bracket that closes the same bounds blames the one that stands in the same place. -/
theorem sameOutcome_of_invalid {p q : Progress} (hpq : p.unplaced = q.unplaced)
    {ts us : List Token} (hp : p.Covers ts) (hq : q.Covers us) (hlen : ts.length = us.length)
    {t u : Token} {position position' : Int} (hs : p.step t = .invalid position)
    (hs' : q.step u = .invalid position') (xs ys : List Item) :
    SameOutcome (α := Design) (ts.map .token ++ xs) (us.map .token ++ ys) ts.length
      (.error (.source (.invalidToken position))) (.error (.source (.invalidToken position'))) := by
  obtain ⟨b, high, low, rfl, -, hb⟩ := Progress.step_eq_invalid_iff.mp hs
  obtain ⟨b', high', low', rfl, -, hb'⟩ := Progress.step_eq_invalid_iff.mp hs'
  obtain ⟨before, w, l, c, -, rfl, -⟩ := hp
  obtain ⟨before', w', l', c', -, rfl, -⟩ := hq
  have hbefore : before.length = before'.length := by simpa using hlen
  simp only [Progress.unplaced, Token.unplaced, Progress.boundsEnd.injEq, Token.mk.injEq] at hpq
  -- the high bound is three calls before the bracket, and the low one is one call before it
  have hpull (i : Nat) (v v' : Token) (hv : [w, l, high, c, low][i]? = some v)
      (hv' : [w', l', high', c', low'][i]? = some v') :
      pull ((before ++ [w, l, high, c, low]).map .token ++ xs) (before.length + i) = .token v ∧
        pull ((before' ++ [w', l', high', c', low']).map .token ++ ys) (before.length + i) =
          .token v' := by
    refine ⟨pull_token ?_ xs, pull_token ?_ ys⟩
    · rw [List.getElem?_append_right (Nat.le_add_right _ _), Nat.add_sub_cancel_left, hv]
    · rw [hbefore, List.getElem?_append_right (Nat.le_add_right _ _), Nat.add_sub_cancel_left, hv']
  rcases blame_of_text_eq hpq.2.1.2.2.2 hpq.2.2.2.2.2 hb hb' with ⟨rfl, rfl⟩ | ⟨rfl, rfl⟩
  · obtain ⟨hx, hy⟩ := hpull 2 high high' rfl rfl
    exact .error (.invalidToken (by simp) hx hy)
  · obtain ⟨hx, hy⟩ := hpull 4 low low' rfl rfl
    exact .error (.invalidToken (by simp) hx hy)

/-- Two stages that differ in places only are stopped in the same way by items that do so, too. -/
theorem exists_halts_alike {p q : Progress} (hpq : p.unplaced = q.unplaced) {ts us : List Token}
    (hp : p.Covers ts) (hq : q.Covers us) (hlen : ts.length = us.length) {xs ys : List Item}
    {result : Except Failure Design} (hh : p.Halts (endOf 0 ts) xs result)
    (h : Item.Alike (pull xs 0) (pull ys 0)) :
    ∃ result', q.Halts (endOf 0 us) ys result' ∧
      SameOutcome (ts.map .token ++ xs) (us.map .token ++ ys) ts.length result result' := by
  have hx := pull_tokens_append ts xs
  have hy : pull (us.map .token ++ ys) ts.length = pull ys 0 := by
    rw [hlen, pull_tokens_append]
  generalize hy0 : pull ys 0 = y at h hy
  cases hh with
  | finished | ended =>
    cases h with
    | ended =>
      refine ⟨q.finish (endOf 0 us), Progress.halts_of_end hy0 q _, ?_⟩
      have hsame := sameOutcome_of_end hpq hx hy
      rw [endBefore_tokens, hlen, endBefore_tokens] at hsame
      rwa [hlen]
  | failed hf =>
    cases h with
    | ended => exact absurd rfl hf
    | @badCharacter c d hc =>
      obtain ⟨rest, rfl⟩ := exists_cons_of_pull hy0 (by simp)
      exact ⟨_, .failed (by simp), .error (.invalidCharacter hx hy hc)⟩
  | @unexpected t rest hs =>
    obtain ⟨u, rfl, htu⟩ := Item.Alike.exists_token t y h
    obtain ⟨rest', rfl⟩ := exists_cons_of_pull_token hy0
    have hs' := step_unplaced_eq hpq htu
    rw [hs] at hs'
    have hexpected : p.expected = q.expected := by
      rw [← p.expected_unplaced, hpq, q.expected_unplaced]
    refine ⟨_, .unexpected (Move.unplaced_eq_unexpected_iff.mp hs'), ?_⟩
    rw [Progress.unexpectedAt, Progress.unexpectedAt, hexpected]
    exact .error (.unexpected hx hy)
  | @extra t rest hs =>
    obtain ⟨u, rfl, htu⟩ := Item.Alike.exists_token t y h
    obtain ⟨rest', rfl⟩ := exists_cons_of_pull_token hy0
    have hs' := step_unplaced_eq hpq htu
    rw [hs] at hs'
    exact ⟨_, .extra (Move.unplaced_eq_extra_iff.mp hs'), .error (.extraToken hx hy)⟩
  | @invalid t rest position hs =>
    obtain ⟨u, rfl, htu⟩ := Item.Alike.exists_token t y h
    obtain ⟨rest', rfl⟩ := exists_cons_of_pull_token hy0
    have hs' := step_unplaced_eq hpq htu
    rw [hs] at hs'
    obtain ⟨position', hq'⟩ := Move.exists_of_unplaced_eq_invalid hs'
    exact ⟨_, .invalid hq', sameOutcome_of_invalid hpq hp hq hlen hs hq' _ _⟩

theorem exists_advance_alike {ts us : List Token} (h : ts.map Token.bare = us.map Token.bare)
    {p : Progress} (ha : Progress.start.advance ts = some p) :
    ∃ q, Progress.start.advance us = some q ∧ p.unplaced = q.unplaced := by
  have hts := Progress.advance_bare .start ts
  rw [h, Progress.advance_bare .start us, ha] at hts
  obtain ⟨q, hq, hpq⟩ := Option.map_eq_some_iff.mp hts
  exact ⟨q, hq, hpq.symm⟩

theorem exists_sameOutcome {xs ys : List Item}
    (h : ∀ call, Item.Alike (pull xs call) (pull ys call)) :
    ∃ last, (Design.read xs).pulled = last + 1 ∧ (Design.read ys).pulled = last + 1 ∧
      SameOutcome xs ys last (Design.read xs).result (Design.read ys).result := by
  obtain ⟨ts, rest, p, result, rfl, ha, hh, hr⟩ := exists_read_eq xs
  obtain ⟨us, rest', rfl, hus, hrest⟩ :=
    exists_tokens_of_pull Item.Alike.exists_token fun call _ => h call
  have hbare : ts.map Token.bare = us.map Token.bare := by
    rw [← List.forall₂_eq_eq_eq, List.forall₂_map_left_iff, List.forall₂_map_right_iff]
    exact hus
  have hlen : ts.length = us.length := hus.length_eq
  obtain ⟨q, hq, hpq⟩ := exists_advance_alike hbare ha
  obtain ⟨result', hh', hsame⟩ := exists_halts_alike hpq (covers_of_advance ha)
    (covers_of_advance hq) hlen hh hrest
  have hr' : Design.read (us.map .token ++ rest') = ⟨result', ts.length + 1⟩ := by
    rw [Design.read, Progress.run_append hq, Progress.run_of_halts hh', Nat.zero_add, hlen]
  rw [hr, hr']
  exact ⟨ts.length, rfl, rfl, hsame⟩

/-- Compiling adds nothing that tells two outcomes of reading apart. -/
theorem SameOutcome.compile {src src' : Bytes} {last : Nat}
    (h : SameOutcome (items src) (items src') last (Design.parse src) (Design.parse src'))
    (collapse : Bool) : SameOutcome (items src) (items src') last
      (Bitwire.compile src collapse) (Bitwire.compile src' collapse) := by
  generalize hp : Design.parse src = parsed at h
  generalize hp' : Design.parse src' = parsed' at h
  cases h with
  | @ok d =>
    obtain ⟨m, hm, -⟩ := compile_of_parse hp collapse
    have heq : Bitwire.compile src' collapse = Bitwire.compile src collapse := by
      simp only [Bitwire.compile, hp, hp']
    rw [heq, hm]
    exact .ok
  | error he =>
    simp only [Bitwire.compile, hp, hp']
    exact .error he

/-- Streams that differ in layout only are read with as many calls, to equal trees or to errors of
one kind that blame the same calls and name the same kinds or character. Sources with such streams
are compiled to the same text, or fail in this same way. -/
theorem read_sameOutcome_of_alike (xs ys : List Item)
    (h : ∀ call, Item.Alike (pull xs call) (pull ys call)) :
    ∃ last, (Design.read xs).pulled = last + 1 ∧ (Design.read ys).pulled = last + 1 ∧
      SameOutcome xs ys last (Design.read xs).result (Design.read ys).result ∧
      ∀ (src src' : Bytes) (collapse : Bool), items src = xs → items src' = ys →
        SameOutcome xs ys last (compile src collapse) (compile src' collapse) := by
  obtain ⟨last, hx, hy, hsame⟩ := exists_sameOutcome h
  refine ⟨last, hx, hy, hsame, ?_⟩
  rintro src src' collapse rfl rfl
  exact hsame.compile collapse

/-- A comment and other blanks around `top $` move the bad character and change nothing else. -/
theorem compile_sameOutcome_of_blanks :
    let src := utf8 "top $"
    let src' := utf8 "// first\n  top\t$ "
    (∀ call, Item.Alike (pull (items src) call) (pull (items src') call)) ∧
      ∃ last, (Design.read (items src)).pulled = last + 1 ∧
        SameOutcome (items src) (items src') last (compile src true) (compile src' true) := by
  intro src src'
  have h : ∀ call, Item.Alike (pull (items src) call) (pull (items src') call)
    | 0 => .token rfl fun _ => rfl
    | 1 => .badCharacter rfl
    | _ + 2 => .ended
  obtain ⟨last, hpulled, -, -, hcompile⟩ := read_sameOutcome_of_alike _ _ h
  exact ⟨h, last, hpulled, hcompile src src' true rfl rfl⟩

end Bitwire
