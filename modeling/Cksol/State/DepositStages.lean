import Cksol.State.Deposits

/-! # The stage of every deposit

`Deposits` keeps seven stage maps and three indexes. A `View` gives each deposit id at most one stage;
`Tracks` says that the maps and the indexes are exactly what the view prescribes, and every transition
is an update of the view.
-/

namespace Cksol

open Std

/-- Where a deposit stands, with what is recorded about it there. -/
inductive Stage where
  | queued (deposit : QueuedDeposit)
  | swept (signature : Signature) (deposit : QueuedDeposit)
  | finalized (signature : Signature) (deposit : QueuedDeposit)
  | pendingMint (pending : PendingMint)
  | minted (minted : MintedSweep)
  | dropped (dropped : SweptDeposit)
  | quarantined (quarantined : QuarantinedDeposit)

namespace Stage

/-- The deposit as it was queued. -/
def deposit : Stage → QueuedDeposit
  | queued deposit | swept _ deposit | finalized _ deposit => deposit
  | pendingMint pending => pending.deposit.deposit
  | minted sweep => sweep.deposit.deposit
  | dropped sweptDeposit => sweptDeposit.deposit
  | quarantined quarantine => quarantine.deposit.deposit

def accountKey (stage : Stage) : AccountKey :=
  stage.deposit.account.key

/-- The minter still works on the deposit. -/
def isProcessing : Stage → Bool
  | queued .. | swept .. | finalized .. | pendingMint .. => true
  | minted .. | dropped .. | quarantined .. => false

/-- The deposit reserves its account. -/
def isInFlight : Stage → Bool
  | queued .. | swept .. | finalized .. | pendingMint .. | quarantined .. => true
  | minted .. | dropped .. => false

end Stage

/-! ## Views -/

/-- The stage of every deposit id, absent for an id never issued. -/
abbrev View := DepositSolId → Option Stage

namespace View

/-- The deposit of an id, as it was queued. -/
def deposit (view : View) (id : DepositSolId) : Option QueuedDeposit :=
  (view id).map Stage.deposit

/-- The account a deposit belongs to. -/
def owner (view : View) (id : DepositSolId) : Option AccountKey :=
  (view.deposit id).map (·.account.key)

/-- The account a deposit reserves while it is in flight. -/
def reserves (view : View) (id : DepositSolId) : Option AccountKey :=
  ((view id).filter Stage.isInFlight).map Stage.accountKey

/-- Whether the minter still works on a deposit. -/
def processing (view : View) (id : DepositSolId) : Bool :=
  (view id).any Stage.isProcessing

/-- The view after the given deposits moved to the stage made from each. -/
def move (view : View) (moved : OrdMap DepositSolId QueuedDeposit)
    (stage : DepositSolId → QueuedDeposit → Stage) : View :=
  fun id => (moved[id]?.map (stage id)).or (view id)

section Move

variable {view : View} {moved : OrdMap DepositSolId QueuedDeposit}
  {stage : DepositSolId → QueuedDeposit → Stage} {id : DepositSolId} {deposit : QueuedDeposit}

theorem move_of_some (h : moved[id]? = some deposit) :
    view.move moved stage id = some (stage id deposit) := by
  simp [move, h]

theorem move_of_none (h : moved[id]? = none) : view.move moved stage id = view id := by
  simp [move, h]

/-- Moves keep every deposit as it was queued. -/
theorem deposit_move
    (h : ∀ id deposit, moved[id]? = some deposit → ∃ s, view id = some s ∧
      s.deposit = deposit ∧ (stage id deposit).deposit = deposit) :
    (view.move moved stage).deposit = view.deposit := by
  funext id
  cases hmoved : moved[id]? with
  | none => simp only [View.deposit, move_of_none hmoved]
  | some deposit =>
      obtain ⟨s, hs, hdeposit, hstage⟩ := h id deposit hmoved
      simp only [View.deposit, move_of_some hmoved, hs, Option.map_some, hdeposit, hstage]

/-- Moves between stages in flight keep the reservations. -/
theorem reserves_move
    (h : ∀ id deposit, moved[id]? = some deposit → ∃ s, view id = some s ∧
      s.deposit = deposit ∧ (stage id deposit).deposit = deposit ∧
      s.isInFlight = (stage id deposit).isInFlight) :
    (view.move moved stage).reserves = view.reserves := by
  funext id
  cases hmoved : moved[id]? with
  | none => simp only [reserves, move_of_none hmoved]
  | some deposit =>
      obtain ⟨s, hs, hdeposit, hstage, hinFlight⟩ := h id deposit hmoved
      simp only [reserves, move_of_some hmoved, hs, Option.filter_some, hinFlight]
      split <;> simp [Stage.accountKey, hdeposit, hstage]

/-- Moves out of flight release exactly the moved deposits. -/
theorem reserves_move_released (h : ∀ id deposit, (stage id deposit).isInFlight = false)
    (id : DepositSolId) :
    (view.move moved stage).reserves id = if id ∈ moved then none else view.reserves id := by
  cases hmoved : moved[id]? with
  | none =>
      rw [if_neg (OrdMap.not_mem_iff.mpr hmoved)]
      simp only [reserves, move_of_none hmoved]
  | some deposit =>
      rw [if_pos (OrdMap.mem_iff_exists.mpr ⟨_, hmoved⟩)]
      simp [reserves, move_of_some hmoved, Option.filter_some, h id deposit]

/-- Moves to stages the minter works on, from such stages. -/
theorem processing_move
    (h : ∀ id deposit, moved[id]? = some deposit → ∃ s, view id = some s ∧
      s.isProcessing = (stage id deposit).isProcessing) :
    (view.move moved stage).processing = view.processing := by
  funext id
  cases hmoved : moved[id]? with
  | none => simp only [processing, move_of_none hmoved]
  | some deposit =>
      obtain ⟨s, hs, hprocessing⟩ := h id deposit hmoved
      simp [processing, move_of_some hmoved, hs, hprocessing]

/-- Moves to final stages end the processing of exactly the moved deposits. -/
theorem processing_move_ended (h : ∀ id deposit, (stage id deposit).isProcessing = false)
    (id : DepositSolId) :
    (view.move moved stage).processing id = (decide (id ∉ moved) && view.processing id) := by
  cases hmoved : moved[id]? with
  | none => simp [processing, move_of_none hmoved, OrdMap.not_mem_iff.mpr hmoved]
  | some deposit =>
      have hmem : id ∈ moved := OrdMap.mem_iff_exists.mpr ⟨_, hmoved⟩
      simp [processing, move_of_some hmoved, h id deposit, hmem]

end Move

/-- The owners depend on the deposits alone. -/
theorem owner_congr {view view' : View} (h : view'.deposit = view.deposit) :
    view'.owner = view.owner := by
  funext id
  rw [owner, owner, h]

/-! ### Moving one deposit -/

section Update

variable {view : View} {id : DepositSolId} {before after : Stage}

theorem deposit_update (hbefore : view id = some before)
    (hdeposit : after.deposit = before.deposit) :
    View.deposit (Function.update view id (some after)) = view.deposit := by
  funext id'
  by_cases hid : id' = id
  · subst hid
    simp [View.deposit, hbefore, hdeposit]
  · simp [View.deposit, hid]

theorem reserves_update (id' : DepositSolId) :
    View.reserves (Function.update view id (some after)) id' =
      if id' = id then (if after.isInFlight then some after.accountKey else none)
      else view.reserves id' := by
  by_cases hid : id' = id
  · subst hid
    by_cases hinFlight : after.isInFlight <;> simp [reserves, Option.filter_some, hinFlight]
  · simp [reserves, hid]

theorem processing_update (id' : DepositSolId) :
    View.processing (Function.update view id (some after)) id' =
      if id' = id then after.isProcessing else view.processing id' := by
  by_cases hid : id' = id
  · subst hid
    simp [processing]
  · simp [processing, hid]

end Update

end View

/-! ## Tracking -/

/-- The id counter and the indexes are those of the view. -/
structure IndexesTrack (deposits : Deposits) (view : View) : Prop where
  issued : ∀ id, (view.owner id).isSome ↔ id < deposits.nextId
  inFlightIds : ∀ key id, deposits.inFlightIds[key]? = some id ↔ view.reserves id = some key
  latestIds : ∀ key id, deposits.latestIds[key]? = some id ↔
    view.owner id = some key ∧ ∀ id', view.owner id' = some key → id' ≤ id
  queuedAtById : ∀ id, id ∈ deposits.queuedAtById ↔ view.processing id

/-- The stage maps and the indexes are those of the view. -/
structure Tracks (deposits : Deposits) (view : View) : Prop extends IndexesTrack deposits view where
  queued : ∀ id deposit, deposits.queued[id]? = some deposit ↔ view id = some (.queued deposit)
  swept : ∀ id signature deposit,
    deposits.swept.Holds id signature deposit ↔ view id = some (.swept signature deposit)
  finalized : ∀ id signature deposit,
    deposits.finalized.Holds id signature deposit ↔ view id = some (.finalized signature deposit)
  pendingMints : ∀ id pending,
    deposits.pendingMints[id]? = some pending ↔ view id = some (.pendingMint pending)
  minted : ∀ id minted, deposits.minted[id]? = some minted ↔ view id = some (.minted minted)
  dropped : ∀ id dropped, deposits.dropped[id]? = some dropped ↔ view id = some (.dropped dropped)
  quarantined : ∀ id quarantined,
    deposits.quarantined[id]? = some quarantined ↔ view id = some (.quarantined quarantined)

/-- Moves that neither release an account nor end the processing leave the indexes alone. -/
theorem IndexesTrack.move {deposits deposits' : Deposits} {view : View}
    {moved : OrdMap DepositSolId QueuedDeposit} {stage : DepositSolId → QueuedDeposit → Stage}
    (h : IndexesTrack deposits view)
    (hkeep : ∀ id deposit, moved[id]? = some deposit → ∃ s, view id = some s ∧
      s.deposit = deposit ∧ (stage id deposit).deposit = deposit ∧
      s.isInFlight = (stage id deposit).isInFlight ∧
      s.isProcessing = (stage id deposit).isProcessing)
    (hnextId : deposits'.nextId = deposits.nextId)
    (hinFlightIds : deposits'.inFlightIds = deposits.inFlightIds)
    (hlatestIds : deposits'.latestIds = deposits.latestIds)
    (hqueuedAtById : deposits'.queuedAtById = deposits.queuedAtById) :
    IndexesTrack deposits' (view.move moved stage) := by
  have howner : (view.move moved stage).owner = view.owner := by
    refine View.owner_congr (View.deposit_move fun id deposit hmoved => ?_)
    obtain ⟨s, hs, hdeposit, hstage, -⟩ := hkeep id deposit hmoved
    exact ⟨s, hs, hdeposit, hstage⟩
  have hreserves : (view.move moved stage).reserves = view.reserves := by
    refine View.reserves_move fun id deposit hmoved => ?_
    obtain ⟨s, hs, hdeposit, hstage, hinFlight, -⟩ := hkeep id deposit hmoved
    exact ⟨s, hs, hdeposit, hstage, hinFlight⟩
  have hprocessing : (view.move moved stage).processing = view.processing := by
    refine View.processing_move fun id deposit hmoved => ?_
    obtain ⟨s, hs, -, -, -, hprocessing⟩ := hkeep id deposit hmoved
    exact ⟨s, hs, hprocessing⟩
  constructor
  · rw [howner, hnextId]
    exact h.issued
  · rw [hreserves, hinFlightIds]
    exact h.inFlightIds
  · rw [howner, hlatestIds]
    exact h.latestIds
  · rw [hprocessing, hqueuedAtById]
    exact h.queuedAtById

theorem Sweeps.holds_erase {sweeps : OrdMap Signature Sweep} {signature signature' : Signature}
    {id : DepositSolId} {deposit : QueuedDeposit} :
    Sweeps.Holds ⟨sweeps.erase signature⟩ id signature' deposit ↔
      signature ≠ signature' ∧ Sweeps.Holds ⟨sweeps⟩ id signature' deposit := by
  simp only [Sweeps.Holds, OrdMap.getElem?_erase_eq]
  by_cases heq : signature = signature' <;> simp [heq]

theorem Sweeps.holds_insert {sweeps : OrdMap Signature Sweep} {signature signature' : Signature}
    {sweep : Sweep} (hnew : sweeps[signature]? = none) {id : DepositSolId}
    {deposit : QueuedDeposit} :
    Sweeps.Holds ⟨sweeps.insert signature sweep⟩ id signature' deposit ↔
      (signature = signature' ∧ sweep.deposits[id]? = some deposit) ∨
        Sweeps.Holds ⟨sweeps⟩ id signature' deposit := by
  simp only [Sweeps.Holds, OrdMap.getElem?_insert_eq]
  by_cases heq : signature = signature'
  · subst heq
    simp [hnew]
  · simp [heq]

namespace Tracks

variable {deposits deposits' : Deposits} {view : View} {signature : Signature}
  {mints : List CreditedDeposit}

theorem default : Tracks .default fun _ => none := by
  refine ⟨⟨?_, ?_, ?_, ?_⟩, ?_, ?_, ?_, ?_, ?_, ?_, ?_⟩ <;>
    simp [Deposits.default, Sweeps.Holds, Sweeps.empty, View.owner, View.deposit, View.reserves,
      View.processing]

/-- The deposits of a swept sweep are those the view places in it. -/
theorem swept_deposits (h : Tracks deposits view) {sweep : Sweep}
    (hsweep : deposits.swept.bySignature[signature]? = some sweep) (id : DepositSolId)
    (deposit : QueuedDeposit) :
    sweep.deposits[id]? = some deposit ↔ view id = some (.swept signature deposit) := by
  rw [← h.swept, Sweeps.Holds]
  simp [hsweep]

/-- The deposits of a finalized sweep are those the view places in it. -/
theorem finalized_deposits (h : Tracks deposits view) {sweep : Sweep}
    (hsweep : deposits.finalized.bySignature[signature]? = some sweep) (id : DepositSolId)
    (deposit : QueuedDeposit) :
    sweep.deposits[id]? = some deposit ↔ view id = some (.finalized signature deposit) := by
  rw [← h.finalized, Sweeps.Holds]
  simp [hsweep]

theorem lt_nextId (h : Tracks deposits view) {id : DepositSolId} {stage : Stage}
    (hstage : view id = some stage) : id < deposits.nextId := by
  refine (h.issued id).mp ?_
  rw [View.owner, View.deposit, hstage]
  rfl

theorem view_nextId (h : Tracks deposits view) : view deposits.nextId = none :=
  Option.eq_none_iff_forall_ne_some.mpr fun _ hstage => lt_irrefl _ (h.lt_nextId hstage)

/-- A deposit is queued under the next id. -/
theorem queue {id : DepositSolId} {deposit : QueuedDeposit} {queuedAt : Timestamp}
    (h : Tracks deposits view) (hqueue : deposits.queue id deposit queuedAt = .ok deposits') :
    Tracks deposits' (Function.update view id (some (.queued deposit))) := by
  obtain ⟨rfl, hfree, watchlist, -, rfl⟩ := Deposits.queue_eq_ok hqueue
  have hnew := h.view_nextId
  have howner : ∀ id, View.owner (Function.update view deposits.nextId (some (.queued deposit))) id =
      if id = deposits.nextId then some deposit.account.key else view.owner id := by
    intro id
    by_cases hid : id = deposits.nextId <;> simp [View.owner, View.deposit, hid, Stage.deposit]
  have hreserves : ∀ id,
      View.reserves (Function.update view deposits.nextId (some (.queued deposit))) id =
        if id = deposits.nextId then some deposit.account.key else view.reserves id := by
    intro id
    by_cases hid : id = deposits.nextId <;>
      simp [View.reserves, hid, Stage.accountKey, Stage.deposit, Stage.isInFlight]
  -- the next id is new
  have hnoOwner : view.owner deposits.nextId = none := by
    simp [View.owner, View.deposit, hnew]
  have hnoReserve : view.reserves deposits.nextId = none := by simp [View.reserves, hnew]
  obtain ⟨⟨hissued, hinFlight, hlatest, hqueuedAt⟩, hqueued, hswept, hfinalized, hpending, hminted,
    hdropped, hquarantined⟩ := h
  refine ⟨⟨?issued, ?inFlightIds, ?latestIds, ?queuedAtById⟩, ?_, ?_, ?_, ?_, ?_, ?_, ?_⟩
  case issued =>
    intro id
    rw [howner]
    have := hissued id
    split <;> grind
  case inFlightIds =>
    intro key id
    rw [hreserves, OrdMap.getElem?_insert_eq]
    have := hinFlight key id
    grind
  case latestIds =>
    intro key id
    simp only [howner]
    rw [OrdMap.getElem?_insert_eq]
    have := hlatest key id
    -- ids are issued in order, so the new one is above all others
    have hlt : ∀ id', view.owner id' = some key → id' < deposits.nextId :=
      fun id' h => (hissued id').mp (by simp [h])
    grind
  case queuedAtById =>
    intro id
    rw [OrdMap.mem_insert_iff, hqueuedAt]
    by_cases hid : id = deposits.nextId
    · simp [hid, View.processing, Stage.isProcessing]
    · simp [hid, Ne.symm hid, View.processing]
  all_goals grind [Function.update]

/-- The deposits of a plan, as the view holds them in the queue. -/
theorem queued_of_plan (h : Tracks deposits view) {taken : List (DepositSolId × QueuedDeposit)}
    {minterAddress : Address} {sweep : Sweep}
    (htaken : ∀ entry ∈ taken, deposits.queued[entry.1]? = some entry.2)
    (hplan : Sweep.plan taken minterAddress = .ok sweep) (id : DepositSolId)
    (deposit : QueuedDeposit) (hdeposit : sweep.deposits[id]? = some deposit) :
    view id = some (.queued deposit) := by
  obtain ⟨-, -, hunique, -⟩ := Sweep.plan_eq_ok hplan
  have hmem := ((Sweep.unique_eq_ok hunique).2 id deposit).mp hdeposit
  exact (h.queued id deposit).mp (htaken _ hmem)

/-- The swept deposits leave the queue together. -/
theorem sweep [SolanaSdk] {depositIds : List DepositSolId} {minterAddress : Address}
    {message : Message} {amount : Lamport} (h : Tracks deposits view)
    (hsweep : deposits.sweep depositIds minterAddress message signature = .ok (deposits', amount)) :
    ∃ taken sweep, Sweep.plan taken minterAddress = .ok sweep ∧
      taken.map Prod.fst = depositIds ∧
      message = sweep.sweepMessage message.recentBlockhash ∧
      deposits.swept.bySignature[signature]? = none ∧
      deposits'.swept = ⟨deposits.swept.bySignature.insert signature sweep⟩ ∧
      (∀ id deposit, sweep.deposits[id]? = some deposit → view id = some (.queued deposit)) ∧
      Tracks deposits' (view.move sweep.deposits fun _ deposit => .swept signature deposit) := by
  obtain ⟨taken, sweep, hnodup, rfl, htaken, hplan, hmessage, hsignature, rfl⟩ :=
    Deposits.sweep_eq_ok hsweep
  have hfrom := h.queued_of_plan htaken hplan
  refine ⟨taken, sweep, hplan, rfl, hmessage, hsignature, rfl, hfrom, ?_⟩
  have hids : ∀ id, id ∈ taken.map Prod.fst ↔ id ∈ sweep.deposits := by
    intro id
    obtain ⟨-, -, hunique, -⟩ := Sweep.plan_eq_ok hplan
    rw [OrdMap.mem_iff_exists]
    simp [(Sweep.unique_eq_ok hunique).2]
  refine ⟨h.toIndexesTrack.move (fun id deposit hdeposit => ?_) rfl rfl rfl rfl,
    ?queued, ?swept, ?_, ?_, ?_, ?_, ?_⟩
  · exact ⟨_, hfrom id deposit hdeposit, rfl, rfl, rfl, rfl⟩
  case queued =>
    intro id deposit
    simp only [OrdMap.getElem?_eraseAll, hids]
    cases hmoved : sweep.deposits[id]? with
    | none =>
        rw [if_neg (OrdMap.not_mem_iff.mpr hmoved), View.move_of_none hmoved]
        exact h.queued id deposit
    | some moved =>
        rw [if_pos (OrdMap.mem_iff_exists.mpr ⟨_, hmoved⟩), View.move_of_some hmoved]
        simp
  case swept =>
    intro id signature' deposit
    rw [Sweeps.holds_insert hsignature]
    cases hmoved : sweep.deposits[id]? with
    | none =>
        rw [View.move_of_none hmoved, ← h.swept]
        simp
    | some moved =>
        rw [View.move_of_some hmoved, h.swept, hfrom id moved hmoved]
        simp
  all_goals grind [View.move, Tracks]

/-- A sweep is finalized with all of its deposits. -/
theorem finalizeSwept (h : Tracks deposits view)
    (hfinalize : deposits.finalizeSwept signature = .ok deposits') :
    ∃ sweep, deposits.swept.bySignature[signature]? = some sweep ∧
      Tracks deposits' (view.move sweep.deposits fun _ deposit => .finalized signature deposit) := by
  obtain ⟨sweep, hsweep, hnew, rfl⟩ := Deposits.finalizeSwept_eq_ok hfinalize
  have hfrom := h.swept_deposits hsweep
  refine ⟨sweep, hsweep, h.toIndexesTrack.move (fun id deposit hdeposit => ?_) rfl rfl rfl rfl,
    ?_, ?swept, ?finalized, ?_, ?_, ?_, ?_⟩
  · exact ⟨_, (hfrom id deposit).mp hdeposit, rfl, rfl, rfl, rfl⟩
  case swept =>
    intro id signature' deposit
    rw [Sweeps.holds_erase, h.swept]
    have := hfrom id deposit
    grind [View.move]
  case finalized =>
    intro id signature' deposit
    rw [Sweeps.holds_insert hnew, h.finalized]
    grind [View.move]
  all_goals grind [View.move, Tracks]

/-- The deposits of a dropped sweep release their accounts. -/
theorem dropSwept (h : Tracks deposits view) (hdrop : deposits.dropSwept signature = .ok deposits') :
    ∃ sweep, deposits.swept.bySignature[signature]? = some sweep ∧
      Tracks deposits' (view.move sweep.deposits fun _ deposit => .dropped ⟨deposit, signature⟩) := by
  obtain ⟨sweep, hsweep, hinFlight, rfl⟩ := Deposits.dropSwept_eq_ok hdrop
  have hfrom := h.swept_deposits hsweep
  have hids : ∀ id, id ∈ sweep.deposits.toList.map Prod.fst ↔ id ∈ sweep.deposits := by
    intro id
    rw [ExtTreeMap.map_fst_toList_eq_keys, ExtTreeMap.mem_keys]
  have howner : (view.move sweep.deposits fun _ deposit => .dropped ⟨deposit, signature⟩).owner =
      view.owner :=
    View.owner_congr (View.deposit_move fun id deposit hdeposit =>
      ⟨_, (hfrom id deposit).mp hdeposit, rfl, rfl⟩)
  refine ⟨sweep, hsweep, ⟨?issued, ?inFlightIds, ?latestIds, ?queuedAtById⟩,
    ?_, ?swept, ?_, ?_, ?_, ?dropped, ?_⟩
  case issued =>
    rw [howner]
    exact h.issued
  case latestIds =>
    rw [howner]
    exact h.latestIds
  case inFlightIds =>
    intro key id
    rw [View.reserves_move_released (fun _ _ => rfl)]
    simp only [OrdMap.getElem?_eraseAll, List.mem_map]
    have hkey := h.inFlightIds key id
    split
    case isTrue hreleased =>
      -- the only reservation of a released account is the one of its moved deposit
      obtain ⟨⟨id', deposit⟩, hmem, rfl⟩ := hreleased
      have hmoved := OrdMap.mem_iff_exists.mpr ⟨deposit, OrdMap.mem_toList_iff.mp hmem⟩
      have := hinFlight _ hmem
      grind
    case isFalse hkept =>
      split
      case isTrue hid =>
        obtain ⟨deposit, hdeposit⟩ := OrdMap.mem_iff_exists.mp hid
        have hreserves : view.reserves id = some deposit.account.key := by
          simp [View.reserves, (hfrom id deposit).mp hdeposit, Stage.isInFlight, Stage.accountKey,
            Stage.deposit]
        have hne : deposit.account.key ≠ key :=
          fun heq => hkept ⟨(id, deposit), OrdMap.mem_toList_iff.mpr hdeposit, heq⟩
        rw [hkey, hreserves]
        simp [hne]
      case isFalse => exact hkey
  case queuedAtById =>
    intro id
    rw [OrdMap.mem_eraseAll_iff, View.processing_move_ended (fun _ _ => rfl), hids, h.queuedAtById]
    simp
  case swept =>
    intro id signature' deposit
    rw [Sweeps.holds_erase, h.swept]
    have := hfrom id deposit
    grind [View.move]
  case dropped =>
    intro id dropped
    rw [OrdMap.getElem?_insertAll_toList deposits.dropped sweep.deposits
      fun _ deposit => ⟨deposit, signature⟩]
    have := h.dropped id dropped
    grind [View.move]
  all_goals grind [View.move, Tracks]

/-- The deposits of a quarantined sweep keep their accounts reserved. -/
theorem quarantineSweep (h : Tracks deposits view)
    (hquarantine : deposits.quarantineSweep signature = .ok deposits') :
    ∃ sweep, deposits.finalized.bySignature[signature]? = some sweep ∧
      Tracks deposits' (view.move sweep.deposits fun _ deposit =>
        .quarantined ⟨⟨deposit, signature⟩, .sweepUnreadable⟩) := by
  obtain ⟨sweep, hsweep, rfl⟩ := Deposits.quarantineSweep_eq_ok hquarantine
  have hfrom := h.finalized_deposits hsweep
  have howner : (view.move sweep.deposits fun _ deposit =>
      .quarantined ⟨⟨deposit, signature⟩, .sweepUnreadable⟩).owner = view.owner :=
    View.owner_congr (View.deposit_move fun id deposit hdeposit =>
      ⟨_, (hfrom id deposit).mp hdeposit, rfl, rfl⟩)
  refine ⟨sweep, hsweep, ⟨?issued, ?inFlightIds, ?latestIds, ?queuedAtById⟩,
    ?_, ?_, ?finalized, ?_, ?_, ?_, ?quarantined⟩
  case issued =>
    rw [howner]
    exact h.issued
  case latestIds =>
    rw [howner]
    exact h.latestIds
  case inFlightIds =>
    have hreserves : (view.move sweep.deposits fun _ deposit =>
        .quarantined ⟨⟨deposit, signature⟩, .sweepUnreadable⟩).reserves = view.reserves :=
      View.reserves_move fun id deposit hdeposit =>
        ⟨_, (hfrom id deposit).mp hdeposit, rfl, rfl, rfl⟩
    rw [hreserves]
    exact h.inFlightIds
  case queuedAtById =>
    intro id
    rw [OrdMap.mem_eraseAll_iff, View.processing_move_ended (fun _ _ => rfl), ExtTreeMap.mem_keys,
      h.queuedAtById]
    simp
  case finalized =>
    intro id signature' deposit
    rw [Sweeps.holds_erase, h.finalized]
    have := hfrom id deposit
    grind [View.move]
  case quarantined =>
    intro id quarantined
    rw [OrdMap.getElem?_insertAll_toList deposits.quarantined sweep.deposits
      fun _ deposit => ⟨⟨deposit, signature⟩, .sweepUnreadable⟩]
    have := h.quarantined id quarantined
    grind [View.move]
  all_goals grind [View.move, Tracks]

/-- As many distinct mints as deposits, each for one of them, cover all the deposits. -/
theorem mem_of_credited {sweep : Sweep} {timestamp : Timestamp}
    {pendingMints pendingMints' : OrdMap DepositSolId PendingMint}
    (hcredited : Deposits.Credited sweep signature timestamp pendingMints mints pendingMints')
    (hlength : mints.length = sweep.depositCount) (id : DepositSolId) :
    id ∈ mints.map CreditedDeposit.depositId ↔ id ∈ sweep.deposits := by
  have hsubset : mints.map CreditedDeposit.depositId ⊆ sweep.deposits.keys := by
    intro id hid
    obtain ⟨mint, hmint, rfl⟩ := List.mem_map.mp hid
    obtain ⟨deposit, hdeposit, -⟩ := hcredited.credited mint hmint
    exact ExtTreeMap.mem_keys.mpr (OrdMap.mem_iff_exists.mpr ⟨_, hdeposit⟩)
  have hperm : (mints.map CreditedDeposit.depositId).Perm sweep.deposits.keys := by
    refine (hcredited.nodup.subperm hsubset).perm_of_length_le ?_
    rw [ExtTreeMap.length_keys, List.length_map, hlength, Sweep.depositCount]
  rw [hperm.mem_iff, ExtTreeMap.mem_keys]

/-- The amount the mints carry for a deposit. -/
def creditedAmount (mints : List CreditedDeposit) (id : DepositSolId) : Lamport :=
  ((mints.find? (·.depositId = id)).map CreditedDeposit.amountToMint).getD 0

theorem creditedAmount_of_mem (hnodup : (mints.map CreditedDeposit.depositId).Nodup)
    {mint : CreditedDeposit} (hmint : mint ∈ mints) :
    creditedAmount mints mint.depositId = mint.amountToMint := by
  have hfind : mints.find? (·.depositId = mint.depositId) = some mint := by
    obtain ⟨found, hfound⟩ : ∃ found, mints.find? (·.depositId = mint.depositId) = some found :=
      Option.isSome_iff_exists.mp (List.find?_isSome.mpr ⟨mint, hmint, by simp⟩)
    have hid : found.depositId = mint.depositId := by simpa using List.find?_some hfound
    rw [hfound, List.inj_on_of_nodup_map hnodup (List.mem_of_find?_eq_some hfound) hmint hid]
  rw [creditedAmount, hfind]
  rfl

/-- Every deposit of a credited sweep gets a pending mint. -/
theorem creditSweep {timestamp : Timestamp} {sweep : Sweep} (h : Tracks deposits view)
    (hcredit : deposits.creditSweep signature mints timestamp = .ok (deposits', sweep)) :
    Tracks deposits' (view.move sweep.deposits fun id deposit =>
      .pendingMint ⟨⟨deposit, signature⟩, creditedAmount mints id, timestamp⟩) := by
  obtain ⟨hsweep, hlength, pendingMints, hcredited, rfl⟩ := Deposits.creditSweep_eq_ok hcredit
  have hfrom := h.finalized_deposits hsweep
  have hids := mem_of_credited hcredited hlength
  refine ⟨h.toIndexesTrack.move (fun id deposit hdeposit => ?_) rfl rfl rfl rfl,
    ?_, ?_, ?finalized, ?pendingMints, ?_, ?_, ?_⟩
  · exact ⟨_, (hfrom id deposit).mp hdeposit, rfl, rfl, rfl, rfl⟩
  case finalized =>
    intro id signature' deposit
    rw [Sweeps.holds_erase, h.finalized]
    have := hfrom id deposit
    grind [View.move]
  case pendingMints =>
    intro id pending
    cases hmoved : sweep.deposits[id]? with
    | none =>
        have hid : id ∉ mints.map CreditedDeposit.depositId := by
          rw [hids]
          exact OrdMap.not_mem_iff.mpr hmoved
        rw [View.move_of_none hmoved, hcredited.frame id hid]
        exact h.pendingMints id pending
    | some deposit =>
        obtain ⟨mint, hmint, rfl⟩ := List.mem_map.mp
          ((hids id).mpr (OrdMap.mem_iff_exists.mpr ⟨_, hmoved⟩))
        obtain ⟨deposit', hdeposit', -, hpending⟩ := hcredited.credited mint hmint
        obtain rfl : deposit = deposit' := Option.some_inj.mp (hmoved.symm.trans hdeposit')
        rw [View.move_of_some hmoved, hpending, creditedAmount_of_mem hcredited.nodup hmint]
        simp
  all_goals grind [View.move, Tracks]

/-- A minted deposit releases its account. -/
theorem mint {id : DepositSolId} {mintBlockIndex : LedgerMintIndex} (h : Tracks deposits view)
    (hmint : deposits.mint id mintBlockIndex = .ok deposits') :
    ∃ pending, view id = some (.pendingMint pending) ∧
      Tracks deposits' (Function.update view id
        (some (.minted ⟨pending.deposit, pending.amountToMint, mintBlockIndex⟩))) := by
  obtain ⟨pending, hpending, hinFlight, rfl⟩ := Deposits.mint_eq_ok hmint
  have hfrom := (h.pendingMints id pending).mp hpending
  have howner : View.owner (Function.update view id
      (some (.minted ⟨pending.deposit, pending.amountToMint, mintBlockIndex⟩))) = view.owner :=
    View.owner_congr (View.deposit_update hfrom rfl)
  refine ⟨pending, hfrom, ⟨?issued, ?inFlightIds, ?latestIds, ?queuedAtById⟩,
    ?_, ?_, ?_, ?_, ?_, ?_, ?_⟩
  case issued =>
    rw [howner]
    exact h.issued
  case latestIds =>
    rw [howner]
    exact h.latestIds
  case inFlightIds =>
    intro key id'
    rw [OrdMap.getElem?_erase_eq, View.reserves_update]
    have hkey := h.inFlightIds key id'
    have hid := h.inFlightIds pending.account.key id
    have hid' := h.inFlightIds pending.account.key id'
    have hreserves : view.reserves id = some pending.account.key := hid.mp hinFlight
    simp only [Stage.isInFlight, Bool.false_eq_true, if_false]
    grind
  case queuedAtById =>
    intro id'
    rw [OrdMap.mem_erase_iff, View.processing_update, h.queuedAtById]
    simp only [Stage.isProcessing]
    grind
  all_goals grind [Function.update, Tracks]

/-- A quarantined pending mint keeps its account reserved. -/
theorem quarantinePendingMint {id : DepositSolId} (h : Tracks deposits view)
    (hquarantine : deposits.quarantinePendingMint id = .ok deposits') :
    ∃ pending, view id = some (.pendingMint pending) ∧
      Tracks deposits' (Function.update view id (some (.quarantined
        ⟨pending.deposit, .mintUnresolved pending.amountToMint pending.createdAtTime⟩))) := by
  obtain ⟨pending, hpending, rfl⟩ := Deposits.quarantinePendingMint_eq_ok hquarantine
  have hfrom := (h.pendingMints id pending).mp hpending
  have howner : View.owner (Function.update view id (some (.quarantined
      ⟨pending.deposit, .mintUnresolved pending.amountToMint pending.createdAtTime⟩))) = view.owner :=
    View.owner_congr (View.deposit_update hfrom rfl)
  refine ⟨pending, hfrom, ⟨?issued, ?inFlightIds, ?latestIds, ?queuedAtById⟩,
    ?_, ?_, ?_, ?_, ?_, ?_, ?_⟩
  case issued =>
    rw [howner]
    exact h.issued
  case latestIds =>
    rw [howner]
    exact h.latestIds
  case inFlightIds =>
    intro key id'
    rw [View.reserves_update, h.inFlightIds]
    split
    case isTrue hid =>
      subst hid
      simp [View.reserves, hfrom, Stage.isInFlight, Stage.accountKey, Stage.deposit]
    case isFalse => rfl
  case queuedAtById =>
    intro id'
    rw [OrdMap.mem_erase_iff, View.processing_update, h.queuedAtById]
    simp only [Stage.isProcessing]
    grind
  all_goals grind [Function.update, Tracks]

end Tracks

end Cksol
