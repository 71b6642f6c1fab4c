import SparkTrail.Path.Config
import SparkTrail.Proofs.Particle.Run
import SparkTrail.Proofs.Path.Stable
import SparkTrail.Scalar.Single

/-!
# Particles without a path

A particle that was activated without a path goes on as a particle by itself, and nothing is ever
done to what it has beyond that. There is no path where a description has none or has one that does
not compile; a blank one need not be told apart, because it would not compile either.
-/
namespace SparkTrail

namespace PathParticle

section Run

variable {α : Type} [Scalar α] {p : PathParticle α} {dt : α}

def reports (p : PathParticle α) : List α → List (Option α)
  | [] => []
  | dt :: dts => (p.update dt).1 :: reports (p.update dt).2 dts

/-- Whatever the times, the updates report what those of `q` report, and nothing is changed but what
a particle is by itself, which is what becomes of `q`. -/
def RunsAs (p : PathParticle α) (q : Particle α) : Prop :=
  ∀ dts, p.reports dts = q.reports dts ∧ p.afterAll dts = { p with base := q.afterAll dts }

theorem update_of_no_path (h : p.path = none) (dt : α) :
    p.update dt = ((p.base.update dt).1, { p with base := (p.base.update dt).2 }) := by
  rw [update, h]
  cases p.base.update dt with
  | mk progress? base => cases progress? <;> rfl

/-- Without a path a particle stays without one, so one update after the other is that of a particle
by itself. -/
theorem runsAs_base (h : p.path = none) : p.RunsAs p.base := by
  intro dts
  induction dts generalizing p with
  | nil => exact ⟨rfl, rfl⟩
  | cons dt dts ih =>
    have hnext : ({ p with base := (p.base.update dt).2 } : PathParticle α).path = none := h
    obtain ⟨hreports, hafter⟩ := ih hnext
    constructor
    · rw [reports, update_of_no_path h, hreports]
      rfl
    · show ((p.update dt).2).afterAll dts = _
      rw [update_of_no_path h, hafter]
      rfl

theorem runsAs_activate (p : PathParticle α) (art : Option (Art α)) :
    (p.activate art none).RunsAs (p.base.activate art) :=
  runsAs_base rfl

end Run

end PathParticle

namespace Path

theorem compile_of_blank {text : String} (h : Text.trim text.toList = []) :
    compile text = .error .empty := by
  have hblank := Text.trim_eq_nil_iff.mp h
  refine compile_eq_error_empty_iff.mpr (kept_eq_nil_iff.mp (Text.trim_eq_nil_iff.mpr ?_))
  intro c hc
  exact hblank c ((Expr.filter_sublist text.toList).subset hc)

end Path

namespace PathConfig

variable {config : Option PathConfig} {path : Path}

/-- To look for blanks first does not matter for which texts there is a path. -/
theorem compile_eq_ok_iff : compile config = .ok path ↔
    ∃ source, config.bind (·.path) = some source ∧ Path.compile source = .ok path := by
  rw [compile]
  cases config.bind (·.path) with
  | none => exact iff_of_false (fun h => by cases h) (by simp)
  | some source =>
    simp only [Option.some.injEq, exists_eq_left']
    split
    case isTrue hblank =>
      rw [Path.compile_of_blank (List.isEmpty_iff.mp hblank)]
      exact iff_of_false (fun h => by cases h) (fun h => by cases h)
    case isFalse =>
      cases Path.compile source with
      | error err => exact iff_of_false (fun h => by cases h) (fun h => by cases h)
      | ok path' => exact ⟨fun h => by cases h; rfl, fun h => by cases h; rfl⟩

theorem prepare_fst_eq_some_iff {verbose : Bool} :
    (prepare config verbose).1 = some path ↔ compile config = .ok path := by
  rw [prepare]
  cases compile config with
  | error fault => simp
  | ok path' => simp

/-- At most one report is made, and only where it is wanted and there is no path. -/
theorem length_prepare_snd (config : Option PathConfig) (verbose : Bool) :
    (prepare config verbose).2.length =
      if (prepare config verbose).1.isNone ∧ verbose = true then 1 else 0 := by
  rw [prepare]
  cases compile config with
  | error fault => cases verbose <;> rfl
  | ok path => rfl

end PathConfig

namespace PathParticle

/-- A particle that is activated without a path goes on as it would by itself, from the same fields
and with the same art: every update reports the same and leaves the same particle, the distance
stays at nothing, there is no path, and place and rotation at the start stay those it was activated
with. A description gives a path just where it has a text that compiles, whether reports are wanted
or not. In all other cases there is no path, particles go on by themselves, and one report is made
if reports are wanted; none is made otherwise, nor where there is a path. (A curve that is read at
what is not a number counts as zero, for the one particle as for the other.) -/
theorem moves_by_itself_without_path {α : Type} [Scalar α] (p : PathParticle α)
    (art : Option (Art α)) :
    let start := p.activate art none
    (start.RunsAs (p.base.activate art) ∧ start.movement = 0 ∧ start.path = none ∧
      start.initialPosition = p.base.position ∧ start.initialRotation = p.base.rotation) ∧
    ∀ config verbose, let prepared := PathConfig.prepare config verbose
      (∀ path, prepared.1 = some path ↔
        ∃ source, config.bind (·.path) = some source ∧ Path.compile source = .ok path) ∧
      prepared.1 = (PathConfig.prepare config false).1 ∧
      (prepared.1 = none → (p.activate art prepared.1).RunsAs (p.base.activate art)) ∧
      prepared.2.length = if prepared.1.isNone ∧ verbose = true then 1 else 0 := by
  intro start
  refine ⟨⟨p.runsAs_activate art, rfl, rfl, rfl, rfl⟩, fun config verbose => ?_⟩
  have hpath : ∀ verbose path, (PathConfig.prepare config verbose).1 = some path ↔
      ∃ source, config.bind (·.path) = some source ∧ Path.compile source = .ok path :=
    fun verbose path =>
      PathConfig.prepare_fst_eq_some_iff.trans PathConfig.compile_eq_ok_iff
  refine ⟨hpath verbose, ?_, ?_, PathConfig.length_prepare_snd config verbose⟩
  · exact Option.ext fun path => (hpath verbose path).trans (hpath false path).symm
  · intro hnone
    rw [hnone]
    exact p.runsAs_activate art

/-- Nothing is left of this text, which is not blank: a particle with it falls by its acceleration,
as it would by itself, and the reason is reported. -/
theorem moves_by_itself_without_path_filtered :
    let p : PathParticle Float32 :=
      { PathParticle.unborn with
        base := { Particle.unborn with acceleration := ⟨0, -8⟩, maxLife := 4 } }
    let prepared := PathConfig.prepare (some ⟨some "é"⟩) true
    prepared.1 = none ∧ prepared.2.length = 1 ∧
      ((p.activate none prepared.1).afterAll [0.5, 0.5]).base =
        (p.base.activate none).afterAll [0.5, 0.5] ∧
      ((p.base.activate none).afterAll [0.5, 0.5]).position = ⟨0, -6⟩ := by
  intro p prepared
  have hjunk : Expr.IsJunk 'é' [] := ⟨by decide, by decide⟩
  have hdropped : (Expr.filter ['é']).text = [] := by
    rw [Expr.filter_junk hjunk, Expr.filter]
  have hempty : Path.compile "é" = .error .empty :=
    Path.compile_eq_error_empty_iff.mpr (hdropped ▸ List.forall_mem_nil _)
  obtain ⟨-, hprepared⟩ := moves_by_itself_without_path p none
  obtain ⟨hpath, -, hruns, hreports⟩ := hprepared (some ⟨some "é"⟩) true
  have hnone : prepared.1 = none := by
    refine Option.eq_none_iff_forall_ne_some.mpr fun path h => ?_
    obtain ⟨source, hsource, hcompiles⟩ := (hpath path).mp h
    cases hsource
    cases hempty.symm.trans hcompiles
  have hone : prepared.2.length = 1 := by
    rw [hreports, if_pos ⟨Option.isNone_iff_eq_none.mpr hnone, rfl⟩]
  obtain ⟨-, hafter⟩ := hruns hnone [0.5, 0.5]
  exact ⟨hnone, hone, congrArg PathParticle.base hafter, by decide +kernel⟩

end PathParticle

end SparkTrail
