import Mathlib.Order.Bounds.Basic
import Cksol.Solana.Compile
import Cksol.State.DepositStages

/-! # The stage partition of deposits

Runs of `Deposits` transitions, and what holds of the maps and indexes in every state they reach.
-/

namespace Cksol

open Std

/-- The transitions of `Deposits`, with their arguments. -/
inductive DepositTransition where
  | queue (depositId : DepositSolId) (deposit : QueuedDeposit) (queuedAt : Timestamp)
  | sweep (depositIds : List DepositSolId) (minterAddress : Address) (message : Message)
      (signature : Signature)
  | dropSwept (signature : Signature)
  | finalizeSwept (signature : Signature)
  | quarantineSweep (signature : Signature)
  | creditSweep (signature : Signature) (mints : List CreditedDeposit) (timestamp : Timestamp)
  | mint (depositId : DepositSolId) (mintBlockIndex : LedgerMintIndex)
  | quarantinePendingMint (depositId : DepositSolId)

/-- The stage maps of `Deposits`. -/
inductive StageName where
  | queued
  | swept
  | finalized
  | pendingMints
  | minted
  | dropped
  | quarantined
deriving DecidableEq

namespace StageName

/-- The stages of a deposit in flight. -/
def isInFlight : StageName → Bool
  | queued | swept | finalized | pendingMints | quarantined => true
  | minted | dropped => false

/-- The stages whose deposits are in `queuedAtById`. -/
def isProcessing : StageName → Bool
  | queued | swept | finalized | pendingMints => true
  | minted | dropped | quarantined => false

end StageName

namespace Deposits

/-- The stage map holds the deposit under the id. -/
def InStage (deposits : Deposits) (id : DepositSolId) (deposit : QueuedDeposit) : StageName → Prop
  | .queued => deposits.queued[id]? = some deposit
  | .swept => ∃ signature, deposits.swept.Holds id signature deposit
  | .finalized => ∃ signature, deposits.finalized.Holds id signature deposit
  | .pendingMints => ∃ pending, deposits.pendingMints[id]? = some pending ∧
      pending.deposit.deposit = deposit
  | .minted => ∃ minted, deposits.minted[id]? = some minted ∧ minted.deposit.deposit = deposit
  | .dropped => ∃ dropped, deposits.dropped[id]? = some dropped ∧ dropped.deposit = deposit
  | .quarantined => ∃ quarantined, deposits.quarantined[id]? = some quarantined ∧
      quarantined.deposit.deposit = deposit

variable [SolanaSdk]

def transition (deposits : Deposits) : DepositTransition → Except Panic Deposits
  | .queue depositId deposit queuedAt => deposits.queue depositId deposit queuedAt
  | .sweep depositIds minterAddress message signature =>
      (deposits.sweep depositIds minterAddress message signature).map Prod.fst
  | .dropSwept signature => deposits.dropSwept signature
  | .finalizeSwept signature => deposits.finalizeSwept signature
  | .quarantineSweep signature => deposits.quarantineSweep signature
  | .creditSweep signature mints timestamp =>
      (deposits.creditSweep signature mints timestamp).map Prod.fst
  | .mint depositId mintBlockIndex => deposits.mint depositId mintBlockIndex
  | .quarantinePendingMint depositId => deposits.quarantinePendingMint depositId

/-- A whole run from the empty deposits, or its panic. -/
def runTransitions (transitions : List DepositTransition) : Except Panic Deposits :=
  transitions.foldlM transition .default

/-- The ids a run queued for an account. -/
def queuedIds (transitions : List DepositTransition) (key : AccountKey) : Set DepositSolId :=
  {id | ∃ deposit queuedAt, .queue id deposit queuedAt ∈ transitions ∧ deposit.account.key = key}

end Deposits

/-! ## The stage a view gives -/

namespace Stage

def name : Stage → StageName
  | queued .. => .queued
  | swept .. => .swept
  | finalized .. => .finalized
  | pendingMint .. => .pendingMints
  | minted .. => .minted
  | dropped .. => .dropped
  | quarantined .. => .quarantined

/-- What `Deposits::status` reports for the stage. -/
def status : Stage → DepositSolStatus
  | queued deposit => .queued deposit.sweepableAmount
  | swept signature _ => .swept signature
  | finalized signature _ => .finalized signature
  | pendingMint pending => .finalized pending.sweepSignature
  | minted sweep => .minted sweep.mintBlockIndex sweep.mintedAmount
  | dropped sweptDeposit => .dropped sweptDeposit.signature
  | quarantined quarantine => .quarantined quarantine.deposit.signature

theorem isInFlight_name (stage : Stage) : stage.name.isInFlight = stage.isInFlight := by
  cases stage <;> rfl

theorem isProcessing_name (stage : Stage) : stage.name.isProcessing = stage.isProcessing := by
  cases stage <;> rfl

end Stage

namespace Tracks

variable {deposits : Deposits} {view : View}

/-- Being in a stage map is being at that stage. -/
theorem inStage_iff (h : Tracks deposits view) {id : DepositSolId} {deposit : QueuedDeposit}
    {name : StageName} : deposits.InStage id deposit name ↔
      ∃ stage, view id = some stage ∧ stage.name = name ∧ stage.deposit = deposit := by
  constructor
  · intro hin
    cases name with
    | queued => exact ⟨_, (h.queued id deposit).mp hin, rfl, rfl⟩
    | swept =>
        obtain ⟨signature, hholds⟩ := hin
        exact ⟨_, (h.swept id signature deposit).mp hholds, rfl, rfl⟩
    | finalized =>
        obtain ⟨signature, hholds⟩ := hin
        exact ⟨_, (h.finalized id signature deposit).mp hholds, rfl, rfl⟩
    | pendingMints =>
        obtain ⟨pending, hpending, rfl⟩ := hin
        exact ⟨_, (h.pendingMints id pending).mp hpending, rfl, rfl⟩
    | minted =>
        obtain ⟨minted, hminted, rfl⟩ := hin
        exact ⟨_, (h.minted id minted).mp hminted, rfl, rfl⟩
    | dropped =>
        obtain ⟨dropped, hdropped, rfl⟩ := hin
        exact ⟨_, (h.dropped id dropped).mp hdropped, rfl, rfl⟩
    | quarantined =>
        obtain ⟨quarantined, hquarantined, rfl⟩ := hin
        exact ⟨_, (h.quarantined id quarantined).mp hquarantined, rfl, rfl⟩
  · rintro ⟨stage, hstage, rfl, rfl⟩
    cases stage with
    | queued deposit => exact (h.queued id deposit).mpr hstage
    | swept signature deposit => exact ⟨signature, (h.swept id signature deposit).mpr hstage⟩
    | finalized signature deposit =>
        exact ⟨signature, (h.finalized id signature deposit).mpr hstage⟩
    | pendingMint pending => exact ⟨pending, (h.pendingMints id pending).mpr hstage, rfl⟩
    | minted minted => exact ⟨minted, (h.minted id minted).mpr hstage, rfl⟩
    | dropped dropped => exact ⟨dropped, (h.dropped id dropped).mpr hstage, rfl⟩
    | quarantined quarantined =>
        exact ⟨quarantined, (h.quarantined id quarantined).mpr hstage, rfl⟩

/-- The status is the one of the stage. -/
theorem status_eq (h : Tracks deposits view) (id : DepositSolId) :
    deposits.status id = ((view id).map Stage.status).getD .notFound := by
  unfold Deposits.status
  split
  case h_1 deposit hqueued => rw [(h.queued _ _).mp hqueued]; rfl
  case h_2 hqueued =>
  split
  case h_1 signature deposit hswept =>
    rw [(h.swept _ _ _).mp (Sweeps.holds_of_deposit_eq_some hswept)]; rfl
  case h_2 hswept =>
  split
  case h_1 signature deposit hfinalized =>
    rw [(h.finalized _ _ _).mp (Sweeps.holds_of_deposit_eq_some hfinalized)]; rfl
  case h_2 hfinalized =>
  split
  case h_1 pending hpending => rw [(h.pendingMints _ _).mp hpending]; rfl
  case h_2 hpending =>
  split
  case h_1 minted hminted => rw [(h.minted _ _).mp hminted]; rfl
  case h_2 hminted =>
  split
  case h_1 dropped hdropped => rw [(h.dropped _ _).mp hdropped]; rfl
  case h_2 hdropped =>
  split
  case h_1 quarantined hquarantined => rw [(h.quarantined _ _).mp hquarantined]; rfl
  case h_2 hquarantined =>
    -- no map holds the id, so the view gives it no stage
    cases hview : view id with
    | none => rfl
    | some stage =>
        have hin : deposits.InStage id stage.deposit stage.name :=
          h.inStage_iff.mpr ⟨stage, hview, rfl, rfl⟩
        cases stage <;> simp_all [Deposits.InStage, Stage.name, Sweeps.deposit_eq_none_iff]

/-- One transition: the view moves on, and only `queue` adds a deposit. -/
theorem transition [SolanaSdk] {deposits' : Deposits} {t : DepositTransition}
    (h : Tracks deposits view) (hstep : deposits.transition t = .ok deposits') :
    ∃ view', Tracks deposits' view' ∧ ∀ id deposit, view'.deposit id = some deposit ↔
      view.deposit id = some deposit ∨ ∃ queuedAt, t = .queue id deposit queuedAt := by
  -- every transition but `queue` keeps the deposits of the view
  have hkept : ∀ {view' : View}, Tracks deposits' view' → view'.deposit = view.deposit →
      (∀ id deposit queuedAt, t ≠ .queue id deposit queuedAt) →
      ∃ view', Tracks deposits' view' ∧ ∀ id deposit, view'.deposit id = some deposit ↔
        view.deposit id = some deposit ∨ ∃ queuedAt, t = .queue id deposit queuedAt := by
    intro view' htracks hdeposit hne
    refine ⟨view', htracks, fun id deposit => ?_⟩
    rw [hdeposit, or_iff_left]
    rintro ⟨queuedAt, heq⟩
    exact hne _ _ _ heq
  cases t with
  | queue id deposit queuedAt =>
      refine ⟨_, h.queue hstep, fun id' deposit' => ?_⟩
      obtain ⟨rfl, -⟩ := Deposits.queue_eq_ok hstep
      by_cases hid : id' = deposits.nextId
      · subst hid
        simp [View.deposit, h.view_nextId, Stage.deposit]
      · simp [View.deposit, hid, Ne.symm hid]
  | sweep depositIds minterAddress message signature =>
      obtain ⟨⟨_, amount⟩, hsweep, rfl⟩ := map_eq_ok.mp hstep
      obtain ⟨taken, sweep, -, -, -, -, -, hfrom, htracks⟩ := h.sweep hsweep
      refine hkept htracks (View.deposit_move fun id deposit hdeposit => ?_) (by simp)
      exact ⟨_, hfrom id deposit hdeposit, rfl, rfl⟩
  | dropSwept signature =>
      obtain ⟨sweep, hsweep, htracks⟩ := h.dropSwept hstep
      refine hkept htracks (View.deposit_move fun id deposit hdeposit => ?_) (by simp)
      exact ⟨_, (h.swept_deposits hsweep id deposit).mp hdeposit, rfl, rfl⟩
  | finalizeSwept signature =>
      obtain ⟨sweep, hsweep, htracks⟩ := h.finalizeSwept hstep
      refine hkept htracks (View.deposit_move fun id deposit hdeposit => ?_) (by simp)
      exact ⟨_, (h.swept_deposits hsweep id deposit).mp hdeposit, rfl, rfl⟩
  | quarantineSweep signature =>
      obtain ⟨sweep, hsweep, htracks⟩ := h.quarantineSweep hstep
      refine hkept htracks (View.deposit_move fun id deposit hdeposit => ?_) (by simp)
      exact ⟨_, (h.finalized_deposits hsweep id deposit).mp hdeposit, rfl, rfl⟩
  | creditSweep signature mints timestamp =>
      obtain ⟨⟨_, sweep⟩, hcredit, rfl⟩ := map_eq_ok.mp hstep
      have hsweep := (Deposits.creditSweep_eq_ok hcredit).1
      refine hkept (h.creditSweep hcredit) (View.deposit_move fun id deposit hdeposit => ?_) (by simp)
      exact ⟨_, (h.finalized_deposits hsweep id deposit).mp hdeposit, rfl, rfl⟩
  | mint id mintBlockIndex =>
      obtain ⟨pending, hpending, htracks⟩ := h.mint hstep
      exact hkept htracks (View.deposit_update hpending rfl) (by simp)
  | quarantinePendingMint id =>
      obtain ⟨pending, hpending, htracks⟩ := h.quarantinePendingMint hstep
      exact hkept htracks (View.deposit_update hpending rfl) (by simp)

/-- A whole run is tracked by a view whose deposits are those the run queued. -/
theorem of_run [SolanaSdk] {transitions : List DepositTransition}
    (hrun : Deposits.runTransitions transitions = .ok deposits) :
    ∃ view, Tracks deposits view ∧ ∀ id deposit, view.deposit id = some deposit ↔
      ∃ queuedAt, .queue id deposit queuedAt ∈ transitions := by
  refine foldlM_invariant (P := fun done deposits => ∃ view, Tracks deposits view ∧
    ∀ id deposit, view.deposit id = some deposit ↔ ∃ queuedAt, .queue id deposit queuedAt ∈ done)
    ?_ ?_ hrun
  · exact ⟨_, Tracks.default, by simp [View.deposit]⟩
  · rintro done deposits t deposits' ⟨view, htracks, hqueued⟩ hstep
    obtain ⟨view', htracks', hdeposit⟩ := htracks.transition hstep
    refine ⟨view', htracks', fun id deposit => ?_⟩
    rw [hdeposit, hqueued]
    simp only [List.mem_append, List.mem_singleton, exists_or, eq_comm]

end Tracks

/-! ## The partition -/

/-- The stage maps partition the issued ids, and the indexes are what the stages prescribe. -/
structure Deposits.StagePartition (deposits : Deposits)
    (queuedIds : AccountKey → Set DepositSolId) : Prop where
  /-- An issued id is in exactly one stage map. -/
  exactlyOne : ∀ id < deposits.nextId, ∃! stage, ∃ deposit, deposits.InStage id deposit stage
  /-- No stage map holds any other id. -/
  onlyIssued : ∀ id stage deposit, deposits.InStage id deposit stage → id < deposits.nextId
  /-- The two sweep maps hold a deposit in one sweep only. -/
  oneSweep : ∀ id signature signature' deposit deposit',
    (deposits.swept.Holds id signature deposit ∧ deposits.swept.Holds id signature' deposit') ∨
      (deposits.finalized.Holds id signature deposit ∧
        deposits.finalized.Holds id signature' deposit') →
    signature = signature' ∧ deposit = deposit'
  /-- An account has at most one deposit in flight. -/
  oneInFlight : ∀ id id' stage stage' deposit deposit',
    stage.isInFlight → stage'.isInFlight →
    deposits.InStage id deposit stage → deposits.InStage id' deposit' stage' →
    deposit.account.key = deposit'.account.key → id = id'
  /-- `inFlightIds` maps the accounts of the deposits in flight to these deposits. -/
  inFlightIds : ∀ key id, deposits.inFlightIds[key]? = some id ↔
    ∃ stage deposit, stage.isInFlight ∧ deposits.InStage id deposit stage ∧
      deposit.account.key = key
  /-- `latestIds` maps each account to the largest id ever queued for it. -/
  latestIds : ∀ key id, deposits.latestIds[key]? = some id ↔ IsGreatest (queuedIds key) id
  /-- `queuedAtById` has exactly the queued, swept, finalized and pending ids. -/
  queuedAtById : ∀ id, id ∈ deposits.queuedAtById ↔
    ∃ stage deposit, stage.isProcessing ∧ deposits.InStage id deposit stage
  /-- `in_flight` does not panic. -/
  inFlight : ∀ account, ∃ result, deposits.inFlight account = .ok result

namespace Tracks

variable {deposits : Deposits} {view : View}

theorem isSome_iff_issued (h : Tracks deposits view) {id : DepositSolId} :
    (∃ stage, view id = some stage) ↔ id < deposits.nextId := by
  rw [← h.issued, View.owner, View.deposit, Option.isSome_map, Option.isSome_map,
    Option.isSome_iff_exists]

theorem reserves_iff {id : DepositSolId} {key : AccountKey} :
    view.reserves id = some key ↔
      ∃ stage, view id = some stage ∧ stage.isInFlight ∧ stage.accountKey = key := by
  cases hview : view id with
  | none => simp [View.reserves, hview]
  | some stage =>
      by_cases hinFlight : stage.isInFlight <;>
        simp [View.reserves, hview, Option.filter_some, hinFlight]

/-- The in-flight deposit of an account is processed or quarantined. -/
theorem inFlight_ok (h : Tracks deposits view) (account : Account) :
    ∃ result, deposits.inFlight account = .ok result := by
  unfold Deposits.inFlight
  split
  · exact ⟨_, rfl⟩
  case h_2 id hid =>
    obtain ⟨stage, hstage, hinFlight, -⟩ := reserves_iff.mp ((h.inFlightIds _ _).mp hid)
    rw [h.status_eq, hstage]
    cases stage <;> simp_all [Stage.isInFlight, Stage.status]

/-- The indexes agree with each other, since they agree with one view. -/
theorem stagePartition (h : Tracks deposits view) {queuedIds : AccountKey → Set DepositSolId}
    (hqueued : ∀ key id, id ∈ queuedIds key ↔ view.owner id = some key) :
    deposits.StagePartition queuedIds := by
  constructor
  case exactlyOne =>
    intro id hid
    obtain ⟨stage, hstage⟩ := h.isSome_iff_issued.mpr hid
    refine ⟨stage.name, ⟨stage.deposit, h.inStage_iff.mpr ⟨stage, hstage, rfl, rfl⟩⟩, ?_⟩
    rintro name ⟨deposit, hin⟩
    obtain ⟨stage', hstage', rfl, -⟩ := h.inStage_iff.mp hin
    rw [hstage] at hstage'
    rw [Option.some_inj.mp hstage']
  case onlyIssued =>
    intro id name deposit hin
    obtain ⟨stage, hstage, -, -⟩ := h.inStage_iff.mp hin
    exact h.isSome_iff_issued.mp ⟨stage, hstage⟩
  case oneSweep =>
    rintro id signature signature' deposit deposit' (⟨hholds, hholds'⟩ | ⟨hholds, hholds'⟩)
    · rw [h.swept] at hholds hholds'
      rw [hholds] at hholds'
      simpa using hholds'
    · rw [h.finalized] at hholds hholds'
      rw [hholds] at hholds'
      simpa using hholds'
  -- both ids would be the one that the account reserves
  case oneInFlight =>
    intro id id' name name' deposit deposit' hname hname' hin hin' hkey
    obtain ⟨stage, hstage, rfl, rfl⟩ := h.inStage_iff.mp hin
    obtain ⟨stage', hstage', rfl, rfl⟩ := h.inStage_iff.mp hin'
    rw [Stage.isInFlight_name] at hname hname'
    have hid := (h.inFlightIds _ _).mpr (reserves_iff.mpr ⟨stage, hstage, hname, rfl⟩)
    have hid' := (h.inFlightIds _ _).mpr (reserves_iff.mpr ⟨stage', hstage', hname', hkey.symm⟩)
    exact Option.some_inj.mp (hid.symm.trans hid')
  case inFlightIds =>
    intro key id
    rw [h.inFlightIds, reserves_iff]
    constructor
    · rintro ⟨stage, hstage, hinFlight, hkey⟩
      exact ⟨stage.name, stage.deposit, by rwa [Stage.isInFlight_name],
        h.inStage_iff.mpr ⟨stage, hstage, rfl, rfl⟩, hkey⟩
    · rintro ⟨name, deposit, hinFlight, hin, hkey⟩
      obtain ⟨stage, hstage, rfl, rfl⟩ := h.inStage_iff.mp hin
      exact ⟨stage, hstage, by rwa [← Stage.isInFlight_name], hkey⟩
  case latestIds =>
    intro key id
    rw [h.latestIds, IsGreatest, mem_upperBounds]
    simp only [hqueued]
  case queuedAtById =>
    intro id
    rw [h.queuedAtById, View.processing, Option.any_eq_true]
    constructor
    · rintro ⟨stage, hstage, hprocessing⟩
      exact ⟨stage.name, stage.deposit, by rwa [Stage.isProcessing_name],
        h.inStage_iff.mpr ⟨stage, hstage, rfl, rfl⟩⟩
    · rintro ⟨name, deposit, hprocessing, hin⟩
      obtain ⟨stage, hstage, rfl, rfl⟩ := h.inStage_iff.mp hin
      exact ⟨stage, hstage, by rwa [← Stage.isProcessing_name]⟩
  case inFlight => exact h.inFlight_ok

end Tracks

/-- Every run of transitions that does not panic keeps the stage partition. -/
theorem Deposits.stagePartition_of_run [SolanaSdk] {transitions : List DepositTransition}
    {deposits : Deposits} (hrun : runTransitions transitions = .ok deposits) :
    deposits.StagePartition (queuedIds transitions) := by
  obtain ⟨view, htracks, hqueued⟩ := Tracks.of_run hrun
  refine htracks.stagePartition fun key id => ?_
  rw [View.owner, Option.map_eq_some_iff]
  constructor
  · rintro ⟨deposit, queuedAt, hmem, rfl⟩
    exact ⟨deposit, (hqueued id deposit).mpr ⟨queuedAt, hmem⟩, rfl⟩
  · rintro ⟨deposit, hdeposit, rfl⟩
    obtain ⟨queuedAt, hmem⟩ := (hqueued id deposit).mp hdeposit
    exact ⟨deposit, queuedAt, hmem, rfl⟩

section Sample

attribute [local instance] Solana.sdk

/-- Two accounts deposit; the sweep of both is credited, one mint is resolved and the other is not. -/
def sampleTransitions : List DepositTransition :=
  let deposit (owner : Principal) (address : Address) (balance : DepositBalance) :
    QueuedDeposit := ⟨⟨owner, none⟩, address, balance, none⟩
  let first := deposit (.single 1) 11 ⟨3_000_000, by decide⟩
  let second := deposit (.single 2) 12 .sampleMedium
  let message := SolanaSdk.newWithBlockhash
    [SolanaSdk.transfer 12 7 4099120, SolanaSdk.transfer 11 7 2109120] (some 12) 9
  [.queue 0 first 100, .queue 1 second 101, .sweep [0, 1] 7 message 5, .finalizeSwept 5,
    .creditSweep 5 [⟨0, 2104120⟩, ⟨1, 4104120⟩] 110, .mint 0 3, .quarantinePendingMint 1]

theorem Deposits.stagePartition_sampleTransitions :
    ∃ deposits, runTransitions sampleTransitions = .ok deposits ∧
      deposits.StagePartition (queuedIds sampleTransitions) := by
  have hok : (runTransitions sampleTransitions).isOk = true := by decide +kernel
  obtain ⟨deposits, hrun⟩ := exists_eq_ok_of_isOk hok
  exact ⟨deposits, hrun, stagePartition_of_run hrun⟩

end Sample

end Cksol
