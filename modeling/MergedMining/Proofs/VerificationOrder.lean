/-
Module: MergedMining.Proofs.VerificationOrder
Purpose: Verification reports the first of the objections that a block meets on a network.
Trusted boundary: none
Main exports: AuxBlock.Objection, AuxBlock.ClearBefore, AuxBlock.verify_outcome,
  AuxBlock.verify_malformed_iff, AuxBlock.verify_reports_first_objection
-/
import MergedMining.AuxBlock
import MergedMining.Proofs.MarkerScan

/-!
An objection is a rejection for which there is a reason in the block, whatever else is wrong with
it.  Objections have a stage, from the shape of the evidence to the demand for a marker, and two of
one stage are the same.  Verification passes exactly the blocks without objection, and otherwise
reports the objection of the earliest stage that has one.
-/

namespace MergedMining.AuxBlock

/-- What speaks against a block on a network, with its stage. -/
inductive Objection (network : Network) (block : AuxBlock) : Nat → Rejection → Prop where
  | noEvidence (absent : block.evidence = none) :
      Objection network block 1 .noEvidence
  | illFormed {evidence : Evidence} (present : block.evidence = some evidence)
      (ill : evidence.coinbase.inputs = [] ∨ 30 < evidence.coinbaseBranch.hashes.length ∨
        30 < evidence.chainBranch.hashes.length) :
      Objection network block 1 .illFormedEvidence
  | foreign (other : block.header.version.word / 65536 ≠ network.chainId) :
      Objection network block 2
        (.wrongChainId (block.header.version.word / 65536) network.chainId)
  | shared {evidence : Evidence} (present : block.evidence = some evidence)
      (own : evidence.parent.version.word / 65536 = network.chainId) :
      Objection network block 3 (.parentSharesChainId network.chainId)
  | repeated {evidence : Evidence} {input : TxInput} {first second : Nat}
      (present : block.evidence = some evidence)
      (searched : evidence.coinbase.inputs.head? = some input)
      (again : Coinbase.Repeated input.script first second) :
      Objection network block 4 (.duplicateMarker first second)
  | spending {evidence : Evidence} {input : TxInput} {first : Nat}
      (present : block.evidence = some evidence)
      (searched : evidence.coinbase.inputs.head? = some input)
      (least : IsLeast (Coinbase.markers input.script) first)
      (real : input.outPoint ≠ ⟨.zero, 0xffffffff⟩) :
      Objection network block 5 (.parentNotCoinbase first)
  | unmarked {evidence : Evidence} {input : TxInput}
      (present : block.evidence = some evidence)
      (searched : evidence.coinbase.inputs.head? = some input)
      (absent : Coinbase.markers input.script = ∅) (required : network.markerRequired = true) :
      Objection network block 6 .missingMarker

/-- Nothing speaks against the block at the earlier stages. -/
def ClearBefore (network : Network) (block : AuxBlock) (stage : Nat) : Prop :=
  ∀ earlier < stage, ∀ rejection, ¬ Objection network block earlier rejection

variable {network : Network} {block : AuxBlock} {evidence : Evidence} {input : TxInput}

namespace Objection

theorem one_le_stage {stage : Nat} {rejection : Rejection}
    (objection : Objection network block stage rejection) : 1 ≤ stage := by
  cases objection <;> decide

/-- There is no seventh stage, so a block that passes six has passed all. -/
theorem stage_le_six {stage : Nat} {rejection : Rejection}
    (objection : Objection network block stage rejection) : stage ≤ 6 := by
  cases objection <;> decide

/-- Two objections of one stage are the same. -/
theorem deterministic {stage : Nat} {one other : Rejection}
    (first : Objection network block stage one) (second : Objection network block stage other) :
    one = other := by
  cases first with
  | noEvidence absent =>
      cases second with
      | noEvidence => rfl
      | illFormed present => simp [absent] at present
  | illFormed present =>
      cases second with
      | noEvidence absent => simp [absent] at present
      | illFormed => rfl
  | foreign =>
      cases second
      rfl
  | shared =>
      cases second
      rfl
  | repeated present searched again =>
      cases second with
      | repeated present' searched' again' =>
          cases present.symm.trans present'
          cases searched.symm.trans searched'
          cases again.least.unique again'.least
          cases again.next.unique again'.next
          rfl
  | spending present searched least =>
      cases second with
      | spending present' searched' least' =>
          cases present.symm.trans present'
          cases searched.symm.trans searched'
          cases least.unique least'
          rfl
  | unmarked =>
      cases second
      rfl

/-! When a stage has nothing to say, for a block with given evidence and coinbase input. -/

/-- Nothing of the first stage speaks against a block with well-formed evidence. -/
theorem not_malformed (present : block.evidence = some evidence)
    (wellFormed : evidence.coinbase.inputs ≠ [] ∧ evidence.coinbaseBranch.hashes.length ≤ 30 ∧
      evidence.chainBranch.hashes.length ≤ 30) (rejection : Rejection) :
    ¬ Objection network block 1 rejection := by
  intro objection
  rcases wellFormed with ⟨someInput, coinbaseShort, chainShort⟩
  cases objection with
  | noEvidence absent => simp [present] at absent
  | illFormed present' ill =>
      cases present.symm.trans present'
      rcases ill with noInput | coinbaseLong | chainLong
      · exact someInput noInput
      · exact Nat.not_lt.mpr coinbaseShort coinbaseLong
      · exact Nat.not_lt.mpr chainShort chainLong

theorem not_foreign (own : block.chainId = network.chainId) (rejection : Rejection) :
    ¬ Objection network block 2 rejection := by
  intro objection
  cases objection with
  | foreign other => exact other own

theorem not_shared (present : block.evidence = some evidence)
    (unshared : evidence.parent.chainId ≠ network.chainId) (rejection : Rejection) :
    ¬ Objection network block 3 rejection := by
  intro objection
  cases objection with
  | shared present' own =>
      cases present.symm.trans present'
      exact unshared own

/-- A marker that is met once in the searched script does not speak against the block. -/
theorem not_repeated (present : block.evidence = some evidence)
    (searched : evidence.coinbase.inputs.head? = some input)
    (once : ∀ first second, ¬ Coinbase.Repeated input.script first second)
    (rejection : Rejection) : ¬ Objection network block 4 rejection := by
  intro objection
  cases objection with
  | repeated present' searched' again =>
      cases present.symm.trans present'
      cases searched.symm.trans searched'
      exact once _ _ again

/-- Nor does a marked input that is the input of a coinbase. -/
theorem not_spending (present : block.evidence = some evidence)
    (searched : evidence.coinbase.inputs.head? = some input)
    (created : ∀ first, IsLeast (Coinbase.markers input.script) first → input.outPoint = .null)
    (rejection : Rejection) : ¬ Objection network block 5 rejection := by
  intro objection
  cases objection with
  | spending present' searched' least real =>
      cases present.symm.trans present'
      cases searched.symm.trans searched'
      exact real (created _ least)

/-- Nor does a script without the marker, if the network does not demand it. -/
theorem not_unmarked (present : block.evidence = some evidence)
    (searched : evidence.coinbase.inputs.head? = some input)
    (marked : Coinbase.markers input.script = ∅ → network.markerRequired = false)
    (rejection : Rejection) : ¬ Objection network block 6 rejection := by
  intro objection
  cases objection with
  | unmarked present' searched' absent required =>
      cases present.symm.trans present'
      cases searched.symm.trans searched'
      rw [marked absent] at required
      cases required

end Objection

namespace ClearBefore

theorem one : ClearBefore network block 1 := by
  intro earlier before rejection objection
  exact Nat.not_le.mpr before objection.one_le_stage

/-- A stage that is passed is cleared with those before it. -/
theorem succ {stage : Nat} (clear : ClearBefore network block stage)
    (passed : ∀ rejection, ¬ Objection network block stage rejection) :
    ClearBefore network block (stage + 1) := by
  intro earlier before
  rcases Nat.lt_succ_iff_lt_or_eq.mp before with strictly | same
  · exact clear earlier strictly
  · rw [same]
    exact passed

/-- The stages up to the sixth are all there are. -/
theorem no_objection (clear : ClearBefore network block 7) (stage : Nat) (rejection : Rejection) :
    ¬ Objection network block stage rejection := by
  intro objection
  exact clear stage (Nat.lt_succ_of_le objection.stage_le_six) rejection objection

/-- The first objection is one only: no other has nothing before it. -/
theorem first_unique {stage stage' : Nat} {one other : Rejection}
    (first : Objection network block stage one) (clear : ClearBefore network block stage)
    (second : Objection network block stage' other) (clear' : ClearBefore network block stage') :
    one = other := by
  have same : stage = stage' := by
    apply Nat.le_antisymm
    · exact Nat.not_lt.mp fun before => clear stage' before other second
    · exact Nat.not_lt.mp fun before => clear' stage before one first
  cases same
  exact first.deterministic second

end ClearBefore

/-! What verification does at each stage, and what it then leaves to the next. -/

/-- Evidence is well formed if there is an input to search and neither branch is too long. -/
theorem isWellFormed_iff :
    evidence.isWellFormed = true ↔
      evidence.coinbase.inputs ≠ [] ∧ evidence.coinbaseBranch.hashes.length ≤ 30 ∧
        evidence.chainBranch.hashes.length ≤ 30 := by
  simp only [Evidence.isWellFormed, Bool.and_eq_true, decide_eq_true_eq, and_assoc]
  rw [Evidence.coinbaseInput?, List.isSome_head?]
  simp [MerkleBranch.maxLength]

theorem illFormed_of_not_isWellFormed (ill : ¬ evidence.isWellFormed = true) :
    evidence.coinbase.inputs = [] ∨ 30 < evidence.coinbaseBranch.hashes.length ∨
      30 < evidence.chainBranch.hashes.length := by
  simpa only [isWellFormed_iff, not_and_or, not_not, Nat.not_le] using ill

/-- Verification goes on with the evidence if it is well formed. -/
theorem checkedEvidence_eq_ok (present : block.evidence = some evidence)
    (wellFormed : evidence.isWellFormed = true) : block.checkedEvidence = .ok evidence := by
  simp [checkedEvidence, present, wellFormed]

theorem verify_of_absent (absent : block.evidence = none) :
    block.verify network = .error .noEvidence := by
  have refused : block.checkedEvidence = .error .noEvidence := by
    simp [checkedEvidence, absent]
  rw [verify, refused]
  rfl

theorem verify_of_illFormed (present : block.evidence = some evidence)
    (ill : ¬ evidence.isWellFormed = true) :
    block.verify network = .error .illFormedEvidence := by
  have refused : block.checkedEvidence = .error .illFormedEvidence := by
    simp [checkedEvidence, present, ill]
  rw [verify, refused]
  rfl

/-- The chain of the block is looked at before that of the parent. -/
theorem verify_of_foreign (checked : block.checkedEvidence = .ok evidence)
    (other : block.chainId ≠ network.chainId) :
    block.verify network = .error (.wrongChainId block.chainId network.chainId) := by
  rw [verify, checked]
  show (if block.chainId ≠ network.chainId then _ else _) = _
  rw [if_pos other]
  rfl

/-- Work on the chain itself is no evidence for it. -/
theorem verify_of_shared (checked : block.checkedEvidence = .ok evidence)
    (own : block.chainId = network.chainId) (shared : evidence.parent.chainId = network.chainId) :
    block.verify network = .error (.parentSharesChainId network.chainId) := by
  rw [verify, checked]
  show (if block.chainId ≠ network.chainId then _ else _) = _
  rw [if_neg (fun other => other own), if_pos shared, shared]
  rfl

/-- Past the chain ids the verdict is that on the coinbase input, and the demand for a marker. -/
theorem verify_of_searched (checked : block.checkedEvidence = .ok evidence)
    (own : block.chainId = network.chainId)
    (unshared : evidence.parent.chainId ≠ network.chainId)
    (searched : evidence.coinbase.inputs.head? = some input) :
    block.verify network =
      match Coinbase.check input with
      | .error rejection => .error rejection
      | .ok found =>
          if found.isNone && network.markerRequired then .error .missingMarker else .ok () := by
  have marked : evidence.markedInput = .ok input := by
    simp [Evidence.markedInput, Evidence.coinbaseInput?, searched]
  rw [verify, checked]
  show (if block.chainId ≠ network.chainId then _ else _) = _
  rw [if_neg (fun other => other own), if_neg unshared, marked]
  show (Coinbase.check input >>= fun found =>
    if found.isNone && network.markerRequired then throw .missingMarker else pure ()) = _
  cases Coinbase.check input <;> rfl

/-- The verdict on a searched script, with nothing before it that speaks against the block. -/
theorem searched_outcome (present : block.evidence = some evidence)
    (searched : evidence.coinbase.inputs.head? = some input)
    (verdict : block.verify network =
      match Coinbase.check input with
      | .error rejection => .error rejection
      | .ok found =>
          if found.isNone && network.markerRequired then .error .missingMarker else .ok ())
    (clear : ClearBefore network block 4) :
    (block.verify network = .ok () ∧ ClearBefore network block 7) ∨
      ∃ stage rejection, block.verify network = .error rejection ∧
        Objection network block stage rejection ∧ ClearBefore network block stage := by
  generalize judgement : Coinbase.check input = judged at verdict
  have reason : Coinbase.Judged input judged := judgement ▸ Coinbase.check_judged input
  cases reason with
  | repeated again =>
      exact .inr ⟨4, _, verdict, .repeated present searched again, clear⟩
  | spending least once real =>
      have clear := clear.succ (Objection.not_repeated present searched once)
      exact .inr ⟨5, _, verdict, .spending present searched least real, clear⟩
  | marked least once created =>
      have marked : Coinbase.markers input.script = ∅ → network.markerRequired = false := by
        intro absent
        exact absurd (absent ▸ least.1) (Set.notMem_empty _)
      have clear := clear.succ (Objection.not_repeated present searched once)
      have clear := clear.succ (Objection.not_spending present searched fun _ _ => created)
      have clear := clear.succ (Objection.not_unmarked present searched marked)
      exact .inl ⟨verdict, clear⟩
  | unmarked absent =>
      have once := Coinbase.not_repeated_of_empty absent
      have unspent : ∀ first, IsLeast (Coinbase.markers input.script) first →
          input.outPoint = .null := by
        intro first least
        exact absurd (absent ▸ least.1) (Set.notMem_empty _)
      have clear := clear.succ (Objection.not_repeated present searched once)
      have clear := clear.succ (Objection.not_spending present searched unspent)
      cases required : network.markerRequired with
      | true =>
          rw [required] at verdict
          exact .inr ⟨6, _, verdict, .unmarked present searched absent required, clear⟩
      | false =>
          rw [required] at verdict
          have clear := clear.succ
            (Objection.not_unmarked present searched fun _ => required)
          exact .inl ⟨verdict, clear⟩

/-- Verification succeeds where nothing speaks against the block, and elsewhere it reports an
objection before which nothing does. -/
theorem verify_outcome (network : Network) (block : AuxBlock) :
    (block.verify network = .ok () ∧ ClearBefore network block 7) ∨
      ∃ stage rejection, block.verify network = .error rejection ∧
        Objection network block stage rejection ∧ ClearBefore network block stage := by
  cases present : block.evidence with
  | none =>
      exact .inr ⟨1, _, verify_of_absent present, .noEvidence present, .one⟩
  | some evidence =>
      by_cases wellFormed : evidence.isWellFormed = true
      · have checked := checkedEvidence_eq_ok present wellFormed
        have shape := isWellFormed_iff.mp wellFormed
        have clear : ClearBefore network block 2 :=
          ClearBefore.one.succ (Objection.not_malformed present shape)
        by_cases own : block.chainId = network.chainId
        · have clear := clear.succ (Objection.not_foreign own)
          by_cases shared : evidence.parent.chainId = network.chainId
          · exact .inr ⟨3, _, verify_of_shared checked own shared, .shared present shared, clear⟩
          · have clear := clear.succ (Objection.not_shared present shared)
            obtain ⟨input, others, inputs⟩ := List.exists_cons_of_ne_nil shape.1
            have searched : evidence.coinbase.inputs.head? = some input := by
              rw [inputs, List.head?_cons]
            exact searched_outcome present searched
              (verify_of_searched checked own shared searched) clear
        · exact .inr ⟨2, _, verify_of_foreign checked own, .foreign own, clear⟩
      · have ill := illFormed_of_not_isWellFormed wellFormed
        exact .inr ⟨1, _, verify_of_illFormed present wellFormed, .illFormed present ill, .one⟩

/-- A block is verified if nothing of any stage speaks against it. -/
theorem verify_eq_ok_iff :
    block.verify network = .ok () ↔
      ∀ stage rejection, ¬ Objection network block stage rejection := by
  rcases verify_outcome network block with
    ⟨passed, clear⟩ | ⟨stage, rejection, refused, objection, _⟩
  · exact ⟨fun _ => clear.no_objection, fun _ => passed⟩
  · constructor
    · intro passed
      rw [refused] at passed
      cases passed
    · intro none
      exact absurd objection (none stage rejection)

/-- What is reported of a block is an objection, and no objection of an earlier stage exists. -/
theorem verify_eq_error_iff {rejection : Rejection} :
    block.verify network = .error rejection ↔
      ∃ stage, Objection network block stage rejection ∧ ClearBefore network block stage := by
  rcases verify_outcome network block with
    ⟨passed, clear⟩ | ⟨stage, first, refused, objection, before⟩
  · constructor
    · intro refused
      rw [passed] at refused
      cases refused
    · intro other
      rcases other with ⟨stage, objection, _⟩
      exact absurd objection (clear.no_objection stage rejection)
  · constructor
    · intro same
      cases refused.symm.trans same
      exact ⟨stage, objection, before⟩
    · intro other
      rcases other with ⟨stage', objection', before'⟩
      rw [refused, before.first_unique objection objection' before']

/-! The evidence is called malformed at the first stage only, and that is when it is not valid. -/

theorem isValid_iff :
    block.isValid = true ↔
      ∃ evidence, block.evidence = some evidence ∧ evidence.isWellFormed = true := by
  simp [isValid, Option.any_eq_true]

/-- The first stage speaks against exactly the blocks that are not valid. -/
theorem Objection.exists_first_iff (network : Network) :
    (∃ rejection, Objection network block 1 rejection) ↔ block.isValid = false := by
  rw [← Bool.not_eq_true, isValid_iff]
  constructor
  · intro refused valid
    rcases valid with ⟨evidence, present, wellFormed⟩
    rcases refused with ⟨rejection, objection⟩
    exact not_malformed present (isWellFormed_iff.mp wellFormed) rejection objection
  · intro invalid
    cases present : block.evidence with
    | none => exact ⟨_, .noEvidence present⟩
    | some evidence =>
        have ill : ¬ evidence.isWellFormed = true := fun wellFormed =>
          invalid ⟨evidence, present, wellFormed⟩
        exact ⟨_, .illFormed present (illFormed_of_not_isWellFormed ill)⟩

/-- Only objections of the first stage are reported as malformed evidence. -/
theorem Objection.malformed_iff {stage : Nat} {rejection : Rejection}
    (objection : Objection network block stage rejection) :
    (∃ reason, rejection = .malformed reason) ↔ stage = 1 := by
  cases objection <;> simp [Rejection.noEvidence, Rejection.illFormedEvidence]

/-- Verification calls evidence malformed exactly if the block is not valid, for every network. -/
theorem verify_malformed_iff (network : Network) :
    (∃ reason, block.verify network = .error (.malformed reason)) ↔ block.isValid = false := by
  rw [← Objection.exists_first_iff network]
  constructor
  · intro refused
    rcases refused with ⟨reason, refused⟩
    obtain ⟨stage, objection, _⟩ := verify_eq_error_iff.mp refused
    cases objection.malformed_iff.mp ⟨reason, rfl⟩
    exact ⟨_, objection⟩
  · intro refused
    rcases refused with ⟨rejection, objection⟩
    obtain ⟨reason, rfl⟩ := objection.malformed_iff.mpr rfl
    exact ⟨reason, verify_eq_error_iff.mpr ⟨1, objection, .one⟩⟩

/-- Among malformed evidence that which is absent is told from that which is ill formed. -/
theorem verify_noEvidence_iff :
    block.verify network = .error .noEvidence ↔ block.evidence = none := by
  constructor
  · intro refused
    obtain ⟨stage, objection, _⟩ := verify_eq_error_iff.mp refused
    generalize named : Rejection.noEvidence = rejection at objection
    cases objection with
    | noEvidence absent => exact absent
    | illFormed => simp [Rejection.noEvidence, Rejection.illFormedEvidence] at named
    | _ => cases named
  · intro absent
    exact verify_of_absent absent

/-- The search is never without an input, since evidence without one is ill formed already. -/
theorem verify_ne_noInput : block.verify network ≠ .error .noInput := by
  intro refused
  obtain ⟨stage, objection, _⟩ := verify_eq_error_iff.mp refused
  generalize named : Rejection.noInput = rejection at objection
  cases objection <;>
    simp [Rejection.noInput, Rejection.noEvidence, Rejection.illFormedEvidence] at named

/-- Verification passes a block exactly when nothing speaks against it, and otherwise reports what
does so at the earliest stage.  It calls the evidence malformed exactly when the block is not valid,
and never for want of an input at the time of the search. -/
theorem verify_reports_first_objection (network : Network) (block : AuxBlock) :
    (block.verify network = .ok () ↔
      ∀ stage rejection, ¬ Objection network block stage rejection) ∧
    (∀ rejection, block.verify network = .error rejection ↔
      ∃ stage, Objection network block stage rejection ∧
        ∀ earlier < stage, ∀ other, ¬ Objection network block earlier other) ∧
    ((∃ reason, block.verify network = .error (.malformed reason)) ↔ block.isValid = false) ∧
    block.verify network ≠ .error .noInput :=
  ⟨verify_eq_ok_iff, fun _ => verify_eq_error_iff, verify_malformed_iff network,
    verify_ne_noInput⟩

end MergedMining.AuxBlock
