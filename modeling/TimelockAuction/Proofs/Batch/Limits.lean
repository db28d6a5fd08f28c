import Mathlib
import TimelockAuction.Proofs.Batch.History
import TimelockAuction.Proofs.Batch.Interleaving
import TimelockAuction.Proofs.Envelope
import TimelockAuction.Proofs.Puzzle.Work

/-!
# The limits of a configuration

A server's pipeline refuses a puzzle of more steps than its rounds take, and a hash chain of more rounds a
step than the configuration has. It refuses nothing else, and the two limits together bound the work of
every solve, although a puzzle may ask for up to `2 ^ 64 - 1` of either. There is no limit to the workers:
a configuration may ask for more of them than there are permits, and then no run starts.

* `AuctionConfig.starts_ofConfig_iff`, `AuctionConfig.exists_reachable_ofConfig_iff`: which batches a
  server's pipeline can start.
* `AuctionConfig.refusal?_ofConfig_eq_none_iff`: what a server's pipeline does not refuse.
* `AuctionConfig.Admits.allows_work`: the work on such a puzzle.
* `AuctionConfig.admits_of_enclose`: puzzles made under the same configuration.
* `AuctionConfig.limits_bound_work`: all runs of a server's pipeline.
* `AuctionConfig.overstaffed_runs_nothing`: too many workers.
-/

namespace TimelockAuction

open BatchState

/-! ## What creators make -/

namespace PuzzleCreator

variable {creator : PuzzleCreator} {steps : UInt64} {supply rest : Bytes} {puzzle : Puzzle} {key : Key}

/-- A made puzzle has the wanted steps and the creator's rounds, whatever was drawn for it. -/
theorem steps_and_rounds_of_generate
    (hrun : (creator.generate steps).run supply = some (.ok (puzzle, key), rest)) :
    puzzle.steps = steps ∧ puzzle.roundsPerStep? = creator.roundsPerStep? := by
  cases creator with
  | squaring modulusBits =>
    obtain ⟨⟨made, made'⟩, left, hmade, hpure⟩ := Draw.run_bind_eq_some_iff.mp hrun
    obtain ⟨hok, rfl⟩ := Draw.pure_eq_some_iff.mp hpure
    cases hok
    obtain ⟨-, trapdoor, _, base, -, -, rfl, -⟩ := SquaringPuzzle.generate_eq_some_iff.mp hmade
    exact ⟨rfl, rfl⟩
  | hashChain roundsPerStep =>
    obtain ⟨⟨made, made'⟩, left, hmade, hpure⟩ := Draw.run_bind_eq_some_iff.mp hrun
    obtain ⟨hok, rfl⟩ := Draw.pure_eq_some_iff.mp hpure
    cases hok
    obtain ⟨seed, -, rfl, -⟩ := HashChainPuzzle.generate_eq_some_iff.mp hmade
    exact ⟨rfl, rfl⟩

end PuzzleCreator

/-! ## Limits -/

namespace AuctionConfig

variable {config wider : AuctionConfig} {puzzle : Puzzle} {work : Nat}

/-- A puzzle within the limits of the configuration. -/
def Admits (config : AuctionConfig) : Puzzle → Prop
  | .squaring puzzle => puzzle.squarings ≤ config.auctionTime
  | .hashChain puzzle =>
    puzzle.steps ≤ config.auctionTime ∧ puzzle.roundsPerStep ≤ config.roundsPerStep

/-- An amount of squarings or of hash rounds that the limits leave for a puzzle. -/
def Allows (config : AuctionConfig) (work : Nat) : Puzzle → Prop
  | .squaring _ => work ≤ config.auctionTime.toNat
  | .hashChain _ =>
    work ≤ config.auctionTime.toNat * config.roundsPerStep.toNat ∧ work < 2 ^ 64

/-- Without hash rounds only the steps matter: no number of rounds is below none. -/
theorem admits_iff :
    config.Admits puzzle ↔ puzzle.steps ≤ config.auctionTime ∧
      puzzle.roundsPerStep?.getD 0 ≤ config.roundsPerStep := by
  cases puzzle with
  | squaring puzzle => exact (and_iff_left UInt64.zero_le).symm
  | hashChain puzzle => exact Iff.rfl

theorem refusal?_ofConfig_eq_none_iff (cores : Nat) :
    (Pipeline.ofConfig config cores).refusal? puzzle = none ↔ config.Admits puzzle := by
  rw [Pipeline.refusal?_eq_none_iff, admits_iff]
  simp [Pipeline.ofConfig, Pipeline.withMaxSteps, Pipeline.withMaxRoundsPerStep]

theorem Admits.mono (h : config.Admits puzzle) (htime : config.auctionTime ≤ wider.auctionTime)
    (hrounds : config.roundsPerStep ≤ wider.roundsPerStep) : wider.Admits puzzle := by
  rw [admits_iff] at h ⊢
  exact ⟨UInt64.le_trans h.1 htime, UInt64.le_trans h.2 hrounds⟩

theorem Admits.allows_work (h : config.Admits puzzle) : config.Allows puzzle.work puzzle := by
  cases puzzle with
  | squaring puzzle => exact (Puzzle.work_squaring_le puzzle).trans (UInt64.le_iff_toNat_le.mp h)
  | hashChain puzzle =>
    have hrounds : puzzle.steps.toNat * puzzle.roundsPerStep.toNat ≤
        config.auctionTime.toNat * config.roundsPerStep.toNat :=
      Nat.mul_le_mul (UInt64.le_iff_toNat_le.mp h.1) (UInt64.le_iff_toNat_le.mp h.2)
    exact ⟨(Puzzle.work_hashChain_le puzzle).trans hrounds, Puzzle.work_hashChain_lt puzzle⟩

/-- A creator of the configuration stays within its limits up to the last step that they leave. -/
theorem admits_of_enclose {creator : PuzzleCreator} {order : AuctionOrder} {steps : UInt64}
    {supply rest : Bytes} {envelope : Envelope}
    (hcreator : creator = .squaringOf config ∨ creator = .hashChainOf config)
    (hsteps : steps ≤ config.auctionTime)
    (hseal : (Envelope.enclose order steps creator).run supply = some (.ok envelope, rest)) :
    config.Admits envelope.puzzle := by
  obtain ⟨hcreate, -⟩ := Envelope.enclose_eq_some_iff.mp hseal
  obtain ⟨key, left, hgenerate, -⟩ := PuzzleCreator.create_eq_some_iff.mp hcreate
  obtain ⟨hpuzzle, hrounds⟩ := PuzzleCreator.steps_and_rounds_of_generate hgenerate
  rw [admits_iff, hpuzzle, hrounds]
  refine ⟨hsteps, ?_⟩
  rcases hcreator with rfl | rfl
  · exact UInt64.zero_le
  · exact UInt64.le_refl _

/-! ## Runs of a server's pipeline -/

theorem workersOn_pos (config : AuctionConfig) (cores : Nat) : 0 < config.workersOn cores := by
  unfold workersOn
  by_cases h : config.solverWorkers = 0
  · rw [if_pos h]
    exact Nat.le_max_right cores 1
  · rw [if_neg h]
    exact Nat.pos_of_ne_zero fun hzero => h (UInt64.toNat_inj.mp hzero)

theorem workers_ofConfig (config : AuctionConfig) (cores : Nat) :
    (Pipeline.ofConfig config cores).workers = config.workersOn cores :=
  Nat.max_eq_left (workersOn_pos config cores)

theorem starts_ofConfig_iff {maxPermits cores : Nat} {batch : List Submission} :
    (Pipeline.ofConfig config cores).Starts maxPermits batch ↔
      batch = [] ∨ config.workersOn cores ≤ maxPermits := by
  rw [Pipeline.Starts, workers_ofConfig]

theorem starts_of_workersOn_le {maxPermits cores : Nat} (h : config.workersOn cores ≤ maxPermits)
    (batch : List Submission) : (Pipeline.ofConfig config cores).Starts maxPermits batch :=
  starts_ofConfig_iff.mpr (.inr h)

theorem exists_reachable_ofConfig_iff {maxPermits cores : Nat} {batch : List Submission}
    (h : batch ≠ []) :
    (∃ state, Reachable maxPermits (.ofConfig config cores) batch state) ↔
      config.workersOn cores ≤ maxPermits := by
  rw [exists_reachable_iff, starts_ofConfig_iff, or_iff_right h]

/-- The reports of a finished run on a submission of its batch. -/
theorem report_iff_of_finished {maxPermits : Nat} {pipeline : Pipeline} {batch : List Submission}
    {state : BatchState} {submission : Submission} (h : Reachable maxPermits pipeline batch state)
    (hend : state.IsFinished) (hmem : submission ∈ batch) (report : Report) :
    report ∈ state.received ∧ report.submission = submission ↔
      report = pipeline.solve submission := by
  constructor
  · rintro ⟨hreport, rfl⟩
    obtain ⟨solved, -, rfl⟩ := List.mem_map.mp ((h.received_perm hend).mem_iff.mp hreport)
    rw [Pipeline.submission_solve]
  · rintro rfl
    exact ⟨h.solve_mem_received hend hmem, Pipeline.submission_solve ..⟩

/-- **The limits bound every solve and refuse nothing else.** A batch has finished runs exactly if it is
empty or there are permits for all workers. Such a run has solved the puzzles of its batch that the limits
admit and no others; it reports what solving an admitted one gave, and a fault of the puzzle on any other.
A solve that some run starts does exactly the work of its puzzle, which is no more squarings, or hash
rounds, than the limits allow, and the rounds can be counted in 64 bits. What a creator of the
configuration encloses, for at most as many steps as a round takes, is admitted. Higher limits, on any
machine, leave the report on an admitted submission as it is. -/
theorem limits_bound_work (config : AuctionConfig) (maxPermits cores : Nat) :
    (∀ batch,
      (∃ past state, History maxPermits (.ofConfig config cores) batch past state ∧ state.IsFinished) ↔
        batch = [] ∨ config.workersOn cores ≤ maxPermits) ∧
    (∀ batch past state, History maxPermits (.ofConfig config cores) batch past state →
      state.IsFinished → ∀ submission ∈ batch,
        (WasSolving past submission ↔ config.Admits submission.envelope.puzzle) ∧
        (config.Admits submission.envelope.puzzle → ∀ report,
          report ∈ state.received ∧ report.submission = submission ↔ report = submission.solve) ∧
        (¬ config.Admits submission.envelope.puzzle → ∃ fault, ∀ report,
          report ∈ state.received ∧ report.submission = submission ↔
            report = ⟨submission, .error (.puzzleSolve fault)⟩)) ∧
    (∀ batch state, Reachable maxPermits (.ofConfig config cores) batch state →
      ∀ submission ∈ state.solving,
        submission.envelope.puzzle.solveKeyCounted =
            (submission.envelope.puzzle.solveKey, submission.envelope.puzzle.work) ∧
          config.Allows submission.envelope.puzzle.work submission.envelope.puzzle) ∧
    (∀ creator, creator = .squaringOf config ∨ creator = .hashChainOf config →
      ∀ order steps supply envelope rest, steps ≤ config.auctionTime →
        (Envelope.enclose order steps creator).run supply = some (.ok envelope, rest) →
          config.Admits envelope.puzzle) ∧
    (∀ (wider : AuctionConfig) (others : Nat), config.auctionTime ≤ wider.auctionTime →
      config.roundsPerStep ≤ wider.roundsPerStep →
        ∀ submission : Submission, config.Admits submission.envelope.puzzle →
          (Pipeline.ofConfig wider others).solve submission =
            (Pipeline.ofConfig config cores).solve submission) := by
  refine ⟨?_, ?_, ?_, ?_, ?_⟩
  · intro batch
    rw [← starts_ofConfig_iff]
    constructor
    · rintro ⟨past, state, hpast, -⟩
      exact hpast.reachable.starts
    · intro hstarts
      obtain ⟨state, hreachable, hend⟩ := exists_finished hstarts
      obtain ⟨past, hpast⟩ := hreachable.exists_history
      exact ⟨past, state, hpast, hend⟩
  · intro batch past state hpast hend submission hmem
    have hreport := report_iff_of_finished hpast.reachable hend hmem
    refine ⟨?_, ?_, ?_⟩
    · rw [hpast.wasSolving_iff hend hmem, refusal?_ofConfig_eq_none_iff]
    · intro hadmits
      rwa [Pipeline.solve_of_no_refusal ((refusal?_ofConfig_eq_none_iff cores).mpr hadmits)] at hreport
    · intro hrefused
      rw [← refusal?_ofConfig_eq_none_iff cores] at hrefused
      obtain ⟨fault, hfault⟩ := Option.ne_none_iff_exists'.mp hrefused
      rw [Pipeline.solve_of_refusal hfault] at hreport
      exact ⟨fault, hreport⟩
  · intro batch state hreachable submission hsolving
    have hrefusal := hreachable.refusal?_of_task (List.mem_append_right _ hsolving)
    have hadmits := (refusal?_ofConfig_eq_none_iff cores).mp hrefusal
    exact ⟨submission.envelope.puzzle.solveKeyCounted_eq, hadmits.allows_work⟩
  · intro creator hcreator order steps supply envelope rest hsteps hseal
    exact admits_of_enclose hcreator hsteps hseal
  · intro wider others htime hrounds submission hadmits
    have hwider := hadmits.mono htime hrounds
    rw [Pipeline.solve_of_no_refusal ((refusal?_ofConfig_eq_none_iff others).mpr hwider),
      Pipeline.solve_of_no_refusal ((refusal?_ofConfig_eq_none_iff cores).mpr hadmits)]

/-- A puzzle of eleven steps takes eleven hash rounds within the limits of the default configuration, and is
not run where rounds take ten steps. -/
theorem elevenSteps_within_limits :
    (∃ past state, History 4 (.ofConfig .default 4) [elevenSteps] past state ∧ state.IsFinished ∧
      WasSolving past elevenSteps) ∧
    elevenSteps.envelope.puzzle.solveKeyCounted = (elevenSteps.envelope.puzzle.solveKey, 11) ∧
    ∃ past state, History 4 (.ofConfig { default with auctionTime := 10 } 4) [elevenSteps] past state ∧
      state.IsFinished ∧ ¬ WasSolving past elevenSteps := by
  obtain ⟨hruns, hsolves, hwork, -⟩ := limits_bound_work .default 4 4
  obtain ⟨hbrief, hrefuses, -⟩ := limits_bound_work { default with auctionTime := 10 } 4 4
  obtain ⟨past, state, hpast, hend⟩ := (hruns [elevenSteps]).mpr (by decide)
  obtain ⟨past', state', hpast', hend'⟩ := (hbrief [elevenSteps]).mpr (by decide)
  have hadmits : default.Admits elevenSteps.envelope.puzzle := ⟨by decide, by decide⟩
  have hrefused : ¬ Admits { default with auctionTime := 10 } elevenSteps.envelope.puzzle :=
    fun h => absurd h.1 (by decide)
  have hsolving : WasSolving past elevenSteps :=
    (hsolves _ _ _ hpast hend _ List.mem_cons_self).1.mpr hadmits
  have hidle : ¬ WasSolving past' elevenSteps :=
    mt (hrefuses _ _ _ hpast' hend' _ List.mem_cons_self).1.mp hrefused
  obtain ⟨earlier, hearlier, hmem⟩ := hsolving
  have hcount := (hwork _ earlier (hpast.reachable_of_mem hearlier) _ hmem).1
  exact ⟨⟨past, state, hpast, hend, earlier, hearlier, hmem⟩, hcount, past', state', hpast', hend', hidle⟩

/-- The default configuration with `2 ^ 61` workers. -/
def overstaffed : AuctionConfig := { default with solverWorkers := 2305843009213693952 }

theorem not_reachable_overstaffed (cores : Nat) {batch : List Submission} (h : batch ≠ []) :
    ∀ state, ¬ Reachable (2 ^ 61 - 1) (.ofConfig overstaffed cores) batch state := by
  have hmany : 2 ^ 61 - 1 < overstaffed.workersOn cores :=
    Nat.sub_lt (Nat.two_pow_pos 61) Nat.one_pos
  rw [← not_exists, exists_reachable_ofConfig_iff h]
  exact Nat.not_le.mpr hmany

/-- The configuration is valid and its limits admit a puzzle of eleven steps. Where one permit less than
`2 ^ 61` can be given out, the puzzle is not run and nothing is reported on it. -/
theorem overstaffed_runs_nothing :
    overstaffed.validate = .ok () ∧ overstaffed.Admits elevenSteps.envelope.puzzle ∧
      (Pipeline.ofConfig overstaffed 4).solveBatch? (2 ^ 61 - 1) [elevenSteps] = none ∧
      ∀ past state,
        ¬ History (2 ^ 61 - 1) (.ofConfig overstaffed 4) [elevenSteps] past state := by
  have hidle := not_reachable_overstaffed 4 (List.cons_ne_nil elevenSteps [])
  exact ⟨by decide, ⟨by decide, by decide⟩, solveBatch?_eq_none_iff.mpr hidle,
    fun _ state hpast => hidle state hpast.reachable⟩

end AuctionConfig

end TimelockAuction
