import Bitwire.Proofs.Erasure
import Bitwire.Proofs.Locating

/-! Compiling never breaks down. Lowering is refused exactly for the first fault of a tree, and what
it lets through can be written; a tree that was parsed has no faults. So a source is compiled, or its
error points into it. -/
namespace Bitwire

theorem faults_of_parse {src : Bytes} {d : Design} (h : Design.parse src = .ok d)
    (collapse : Bool) : d.faults collapse = [] :=
  (wellFormed_of_parse h).faults collapse

theorem exists_blamed_of_compile_error {src : Bytes} {collapse : Bool} {f : Failure}
    (h : compile src collapse = .error f) : ∃ error, f = .source error ∧ Blamed src error := by
  obtain ⟨d, hp, -⟩ | ⟨error, hp, hblamed⟩ := parse_ok_or_blamed src
  · obtain ⟨m, hm, -⟩ := compile_of_parse hp collapse
    cases hm.symm.trans h
  · simp only [compile, hp] at h
    cases h
    exact ⟨error, rfl, hblamed⟩

theorem compile_ok_or_source (src : Bytes) (collapse : Bool) :
    (∃ text, compile src collapse = .ok text) ∨
      ∃ error, compile src collapse = .error (.source error) := by
  cases hc : compile src collapse with
  | ok text => exact Or.inl ⟨text, rfl⟩
  | error f =>
    obtain ⟨error, rfl, -⟩ := exists_blamed_of_compile_error hc
    exact Or.inr ⟨error, rfl⟩

/-- Lowering a tree fails exactly when its traversal meets a fault, and with the first one met; what
it gives can always be written. Parsed trees have no faults, so that a source is compiled to a text
or to an error that points into it. -/
theorem lower_refused_iff_first_fault :
    (∀ (d : Design) (collapse : Bool),
      (∀ fault, d.lower collapse = .error fault ↔ (d.faults collapse).head? = some fault) ∧
        ∀ m, d.lower collapse = .ok m → m.render = .ok m.text) ∧
    (∀ (src : Bytes) (d : Design), Design.parse src = .ok d →
      ∀ collapse, d.faults collapse = []) ∧
    ∀ (src : Bytes) (collapse : Bool), (∃ text, compile src collapse = .ok text) ∨
      ∃ error, compile src collapse = .error (.source error) := by
  refine ⟨fun d collapse => ⟨fun fault => ?_, fun m hm => ?_⟩, ?_, compile_ok_or_source⟩
  · rw [d.lower_eq, unlessFaulty_eq_error_iff]
  · rw [d.lower_eq, unlessFaulty_eq_ok_iff] at hm
    obtain ⟨hfaults, rfl⟩ := hm
    exact d.render_lowered hfaults
  · exact fun src d hd collapse => faults_of_parse hd collapse

end Bitwire
