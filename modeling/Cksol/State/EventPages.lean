import Cksol.State.EventCandid

/-! # Pages of the event log

`get_events` finds the start of a page with a 32-bit index, to which the 64-bit start of the request is
cut. A page is what was asked for when the cut changes nothing; a client that pages through the log by
the number of events received comes to an end when the whole log is within the index.
-/

namespace Cksol

section Pages

variable (log : List Event) (args : GetEventsArgs)

/-- The events of a response with their positions in the log. -/
def eventPage : List (Event × ℕ) :=
  (log.zipIdx.drop (args.start % 2 ^ 32)).take (min args.length maxEventsPerResponse)

/-- The events at the positions that are asked for. -/
def requestedPage : List (Event × ℕ) :=
  (log.zipIdx.drop args.start).take (min args.length maxEventsPerResponse)

theorem getEvents_events [CandidTypes] [WireCodecs] :
    (getEvents log args).events = (eventPage log args).map fun entry => .fromEvent entry.1 := by
  have hlog : log.zipIdx.map Prod.fst = log := by simp
  calc (getEvents log args).events
      = (((log.zipIdx.map Prod.fst).drop (args.start % 2 ^ 32)).take
          (min args.length maxEventsPerResponse)).map CandidEvent.fromEvent := by rw [hlog]; rfl
    _ = (eventPage log args).map fun entry => .fromEvent entry.1 := by
        rw [← List.map_drop, ← List.map_take, List.map_map]
        rfl

variable {log args}

theorem head?_page {start n : ℕ} (hn : 0 < n) :
    ((log.zipIdx.drop start).take n).head? = (log[start]?).map fun event => (event, start) := by
  rw [List.head?_take, if_neg (Nat.ne_of_gt hn), List.head?_drop, List.getElem?_zipIdx]
  simp

/-- The page is the requested one when the start fits the index, when nothing is asked for, or when the
cut start is past the end of the log, and only then. -/
theorem eventPage_eq_iff :
    eventPage log args = requestedPage log args ↔
      args.start < 2 ^ 32 ∨ args.length = 0 ∨ log.length ≤ args.start % 2 ^ 32 := by
  constructor
  · intro heq
    by_contra hnot
    push Not at hnot
    obtain ⟨hstart, hlength, hlog⟩ := hnot
    have hn : 0 < min args.length maxEventsPerResponse :=
      Nat.lt_min.mpr ⟨Nat.pos_of_ne_zero hlength, by decide⟩
    -- the first event of the page is at the cut position
    have hhead := congrArg List.head? heq
    rw [eventPage, requestedPage, head?_page hn, head?_page hn, List.getElem?_eq_getElem hlog,
      Option.map_some] at hhead
    obtain ⟨event, -, hevent⟩ := Option.map_eq_some_iff.mp hhead.symm
    have hcut := (Prod.mk.inj hevent).2
    omega
  · intro hcases
    rw [eventPage, requestedPage]
    rcases hcases with hstart | hlength | hlog
    · rw [Nat.mod_eq_of_lt hstart]
    · rw [hlength, Nat.zero_min, List.take_zero, List.take_zero]
    · have hle : args.start % 2 ^ 32 ≤ args.start := Nat.mod_le _ _
      rw [List.drop_of_length_le (by simpa using hlog),
        List.drop_of_length_le (by simpa using Nat.le_trans hlog hle)]

end Pages

/-! ## Paging through the log -/

section Paging

variable [CandidTypes] [WireCodecs] {log : List Event} {length : ℕ}

/-- What a client has after a number of requests, each from the number of events received so far. -/
def receivedEvents (log : List Event) (length : ℕ) : ℕ → List CandidEvent
  | 0 => []
  | n + 1 =>
      receivedEvents log length n ++
        (getEvents log ⟨(receivedEvents log length n).length, length⟩).events

/-- Within the index every request brings the next page. -/
theorem receivedEvents_eq (hlog : log.length < 2 ^ 32) (n : ℕ) :
    receivedEvents log length n =
      (log.take (n * min length maxEventsPerResponse)).map CandidEvent.fromEvent := by
  induction n with
  | zero => rw [Nat.zero_mul, List.take_zero]; rfl
  | succ n ih =>
      generalize hpage : min length maxEventsPerResponse = page at ih ⊢
      have hstart : min (n * page) log.length % 2 ^ 32 = min (n * page) log.length :=
        Nat.mod_eq_of_lt (Nat.lt_of_le_of_lt (Nat.min_le_right _ _) hlog)
      -- a start past the end and the end itself leave the same empty rest
      have hdrop : log.drop (min (n * page) log.length) = log.drop (n * page) := by
        rcases Nat.le_total (n * page) log.length with hle | hle
        · rw [Nat.min_eq_left hle]
        · rw [Nat.min_eq_right hle, List.drop_length, List.drop_of_length_le hle]
      rw [receivedEvents, ih, List.length_map, List.length_take, getEvents, hstart, hdrop, hpage,
        ← List.map_append, ← List.take_add, Nat.add_one_mul]

/-- A log past the index has an event at every cut position, so no page of it is empty. -/
theorem length_receivedEvents_lt (hlog : 2 ^ 32 ≤ log.length) (hlength : 0 < length) (n : ℕ) :
    (receivedEvents log length n).length < (receivedEvents log length (n + 1)).length := by
  have hcut : (receivedEvents log length n).length % 2 ^ 32 < log.length :=
    Nat.lt_of_lt_of_le (Nat.mod_lt _ (by decide)) hlog
  have hpage : 0 < min length maxEventsPerResponse := Nat.lt_min.mpr ⟨hlength, by decide⟩
  rw [receivedEvents, List.length_append]
  apply Nat.lt_add_of_pos_right
  rw [getEvents, List.length_map, List.length_take, List.length_drop]
  exact Nat.lt_min.mpr ⟨hpage, Nat.sub_pos_of_lt hcut⟩

theorem receivedEvents_zero (n : ℕ) : receivedEvents log 0 n = [] := by
  induction n with
  | zero => rfl
  | succ n ih => rw [receivedEvents, ih, getEvents, Nat.zero_min, List.take_zero]; rfl

/-- The client comes to the whole log, and then receives nothing more, when it asks for events and the
whole log is within the index. -/
theorem receivedEvents_complete_iff :
    (∃ n, ∀ k ≥ n, receivedEvents log length k = log.map CandidEvent.fromEvent) ↔
      log = [] ∨ 0 < length ∧ log.length < 2 ^ 32 := by
  constructor
  · rintro ⟨n, hn⟩
    rcases Nat.eq_zero_or_pos length with rfl | hlength
    · have hnil : log.map CandidEvent.fromEvent = [] := by
        rw [← hn n (Nat.le_refl n), receivedEvents_zero]
      exact .inl (List.map_eq_nil_iff.mp hnil)
    · refine .inr ⟨hlength, ?_⟩
      by_contra hlog
      have hgrows := length_receivedEvents_lt (Nat.le_of_not_lt hlog) hlength n
      rw [hn n (Nat.le_refl n), hn (n + 1) (Nat.le_succ n)] at hgrows
      exact Nat.lt_irrefl _ hgrows
  · rintro (rfl | ⟨hlength, hlog⟩)
    · refine ⟨0, fun k _ => ?_⟩
      rw [receivedEvents_eq (by decide), List.take_nil]
    · refine ⟨log.length, fun k hk => ?_⟩
      have hpage : 1 ≤ min length maxEventsPerResponse := Nat.le_min.mpr ⟨hlength, by decide⟩
      have hle : log.length ≤ k * min length maxEventsPerResponse :=
        Nat.le_trans hk (Nat.le_mul_of_pos_right k hpage)
      rw [receivedEvents_eq hlog, List.take_of_length_le hle]

end Paging

/-- A response holds the events at the requested positions exactly when the start fits the index, nothing
is asked for, or the cut start is past the end of the log. A client that asks from the number of events
received so far gets the whole log once, and only empty pages from then on, exactly when it asks for
events and the log is within the index. -/
theorem getEvents_eq_requested_iff [CandidTypes] [WireCodecs] (log : List Event) :
    (∀ args : GetEventsArgs,
      (getEvents log args).events =
        (eventPage log args).map (fun entry => CandidEvent.fromEvent entry.1) ∧
      (eventPage log args = requestedPage log args ↔
        args.start < 2 ^ 32 ∨ args.length = 0 ∨ log.length ≤ args.start % 2 ^ 32)) ∧
    ∀ length, (∃ n, ∀ k ≥ n, receivedEvents log length k = log.map CandidEvent.fromEvent) ↔
      log = [] ∨ 0 < length ∧ log.length < 2 ^ 32 :=
  ⟨fun args => ⟨getEvents_events log args, eventPage_eq_iff⟩, fun _ => receivedEvents_complete_iff⟩

section Sample

attribute [local instance] Solana.sdk Solana.wireCodecs Solana.candidTypes

/-- A start of `2 ^ 32` is cut to the first event of a log of three. -/
theorem getEvents_start_cut :
    (getEvents sampleLog ⟨2 ^ 32, 1⟩).events = (sampleLog.take 1).map CandidEvent.fromEvent ∧
      (getEvents sampleLog ⟨2 ^ 32, 1⟩).events ≠
        ((sampleLog.drop (2 ^ 32)).take 1).map CandidEvent.fromEvent := by
  have hcut : (getEvents sampleLog ⟨2 ^ 32, 1⟩).events =
      (sampleLog.take 1).map CandidEvent.fromEvent := rfl
  refine ⟨hcut, ?_⟩
  rw [hcut, List.drop_of_length_le (by decide)]
  exact List.cons_ne_nil _ _

end Sample

end Cksol
