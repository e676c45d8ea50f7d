import GrAta.Flowgraph.Heads

/-!
# Runs of the flowgraph

The state of a flowgraph along any order of events, when a lossy stream arrives
at every source. Until the synchronizer is synchronized, no handshake is recorded
and every input stands at a block boundary of its stream. From the synchronizing
call on, every output is the part of the input stream from a fixed block on.

## Main definitions

- `Flowgraph.Waiting`, `Flowgraph.Forwarding`: the two phases
- `Flowgraph.Composed`: what holds after a list of events

## Main results

- `Flowgraph.run_composed`: every run returns, in one of the two phases
-/

namespace GrAta

/-- The calls of a run only add output items. -/
theorem items_of_workCall {c : Config} {w w' : WorkRun} {call : Call}
    (h : workCall c w call = .ok w') : w.items <+: w'.items := by
  rw [workCall] at h
  cases hm : handleMessages w.source.volt call.messages with
  | error e => simp [hm, error_bind] at h
  | ok volt =>
    rw [hm, ok_bind] at h
    cases hw : workVoltMode c call.noutputItems true
        { w.source with recv := call.receive w.source.recv, volt := volt } with
    | error e => simp [hw, error_bind] at h
    | ok r =>
      rw [hw, ok_bind] at h
      rw [← Except.ok.inj h, WorkRun.items_concat]
      exact List.prefix_append _ _

theorem Call.quiet_valid {call : Call} (h : call.Valid) : call.quiet.Valid :=
  ⟨h.pos, h.dvd, fun _ hm => absurd hm List.not_mem_nil⟩

/-- Dropping and taking within a list does not see what follows it. -/
theorem take_drop_of_prefix {α : Type} {l l' : List α} (h : l <+: l') {b k : ℕ}
    (hk : b + k ≤ l.length) : (l'.drop b).take k = (l.drop b).take k := by
  obtain ⟨r, rfl⟩ := h
  rw [List.drop_append_of_le_length (by omega), List.take_append_of_le_length]
  rw [List.length_drop]
  omega

namespace Flowgraph

variable {n : ℕ} (G : Flowgraph n)

/-- What arrives at the sources, and how the runtime calls the blocks. The first
timestamps of the sources are congruent modulo 16. -/
structure Traffic (first : Fin n → ℕ) (events : List (Event n)) : Prop where
  valid : ∀ e ∈ events, e.Valid
  congruent : ∀ i j, first i ≡ first j [MOD 16]
  lossy : ∀ i, LossyStream (G.blocks i) (first i) (arrivedAt i events)

/-- Before the synchronization. -/
structure Waiting (s : FlowState n) : Prop where
  synchronized : s.synchronizer.dSynchronized = false
  quiet : ∀ i, (s.sources i).source.volt.syncTimestamp = 0
  boundary : ∀ i, 16 ∣ s.synchronizer.nitemsRead i
  read_le : ∀ i, s.synchronizer.nitemsRead i ≤ (s.stream i).length
  silent : ∀ i, s.synchronizer.outputItems i = []
  published : s.synchronizer.published = []

/-- After the synchronization: output `i` holds `count` items of stream `i` from
item `base i` on. -/
structure Forwarding (base : Fin n → ℕ) (count : ℕ) (s : FlowState n) : Prop where
  synchronized : s.synchronizer.dSynchronized = true
  boundary : ∀ i, 16 ∣ base i
  pos : 0 < count
  read : ∀ i, s.synchronizer.nitemsRead i = base i + count
  read_le : ∀ i, base i + count ≤ (s.stream i).length
  output : ∀ i, s.synchronizer.outputItems i =
    (((s.stream i).drop (base i)).take count).map Item.data

/-- The synchronizing call comes after the events `before`, and finds the number
`tag` at the head of every stream, on item `base i` of stream `i`. -/
structure SynchronizedAt (before : List (Event n)) (base : Fin n → ℕ) (tag : ℕ) : Prop where
  found : ∃ s, G.run before = .ok s ∧ s.synchronizer.dSynchronized = false ∧
    ∀ i, Synchronizer.tag0 (s.waiting i) = .ok tag
  head : ∀ i, base i < frameCount (G.blocks i).cfg.bOnePacket (arrivedAt i before) * 16 ∧
    announcedAt (G.blocks i).cfg.bOnePacket (arrivedAt i before)
      (itemTime (arrivedAt i before) (base i)) = tag

/-- The two phases of a run. -/
inductive Phase (events : List (Event n)) (s : FlowState n) : Prop
  | waiting (h : Waiting s)
  | forwarding (before after : List (Event n)) (noutputItems : ℕ) (base : Fin n → ℕ)
      (count tag : ℕ) (hsplit : events = before ++ .generalWork noutputItems :: after)
      (hat : G.SynchronizedAt before base tag)
      (hpublished : s.synchronizer.published = [Synchronizer.syncPdu tag])
      (h : Forwarding base count s)

/-- What holds after the events of a run. -/
structure Composed (events : List (Event n)) (s : FlowState n) : Prop where
  reached : G.run events = .ok s
  tracks : ∀ i, ∃ taken delivered queue,
    (G.blocks i).Tracks (arrivedAt i events) taken delivered queue (s.sources i)
  phase : G.Phase events s

variable {G} {first : Fin n → ℕ} {events : List (Event n)} {s s' : FlowState n} {e : Event n}

theorem Traffic.of_concat (h : G.Traffic first (events ++ [e])) : G.Traffic first events where
  valid := fun e' he' => h.valid e' (List.mem_append_left [e] he')
  congruent := h.congruent
  lossy := fun i => by
    have hlossy := h.lossy i
    obtain ⟨ps, hps⟩ := arrivedAt_append (i := i) events [e]
    rw [hps] at hlossy
    exact hlossy.of_append

theorem run_concat (h : G.run events = .ok s) (he : G.step s e = .ok s') :
    G.run (events ++ [e]) = .ok s' := by
  rw [run] at h ⊢
  cases hinit : G.initial with
  | error e => simp [hinit, error_bind] at h
  | ok start =>
    rw [hinit, ok_bind] at h
    rw [ok_bind]
    exact Execution.run_concat_ok h he

/-- The phase of a state stays when its streams grow and the synchronizer is left
alone. -/
theorem Forwarding.of_streams {base : Fin n → ℕ} {count : ℕ} (h : Forwarding base count s)
    (hsync : s'.synchronizer = s.synchronizer) (hgrow : ∀ i, s.stream i <+: s'.stream i) :
    Forwarding base count s' where
  synchronized := by rw [hsync, h.synchronized]
  boundary := h.boundary
  pos := h.pos
  read := fun i => by rw [hsync, h.read i]
  read_le := fun i => (h.read_le i).trans (hgrow i).length_le
  output := fun i => by
    rw [hsync, h.output i, take_drop_of_prefix (hgrow i) (h.read_le i)]

theorem Phase.later (h : G.Phase events s) (hw : Waiting s → Waiting s')
    (hf : ∀ base count, Forwarding base count s → ∃ count', Forwarding base count' s')
    (hpub : s.synchronizer.dSynchronized = true →
      s'.synchronizer.published = s.synchronizer.published) : G.Phase (events ++ [e]) s' := by
  cases h with
  | waiting h => exact .waiting (hw h)
  | forwarding before after noutputItems base count tag hsplit hat hpublished h =>
    obtain ⟨count', h'⟩ := hf base count h
    refine .forwarding before (after ++ [e]) noutputItems base count' tag ?_ hat ?_ h'
    · rw [hsplit, List.append_assoc, List.cons_append]
    · rw [hpub h.synchronized, hpublished]

/-- The call of a source: its stream grows, and before the synchronization it
records no handshake. -/
theorem Composed.work (h : G.Composed events s) {i : Fin n} {call : Call}
    (ht : G.Traffic first (events ++ [.work i call])) :
    ∃ s', G.step s (.work i call) = .ok s' ∧ G.Composed (events ++ [.work i call]) s' := by
  obtain ⟨taken, delivered, queue, htracks⟩ := h.tracks i
  have hvalid : call.Valid := ht.valid (.work i call) (by simp)
  let call' := if s.synchronizer.dSynchronized then call else call.quiet
  have hvalid' : call'.Valid := by
    simp only [call']
    split_ifs
    · exact hvalid
    · exact Call.quiet_valid hvalid
  have harrived : call'.arrived = call.arrived := by
    simp only [call']
    split_ifs <;> rfl
  have hpackets : arrivedAt i (events ++ [.work i call]) =
      arrivedAt i events ++ call'.arrived := by
    rw [arrivedAt_work_self, harrived]
  have hadm := (ht.lossy i).admissible
  rw [hpackets] at hadm
  obtain ⟨w, taken', delivered', queue', hw, hwtracks, hwquiet, -⟩ :=
    (G.blocks i).workCall_tracks htracks hvalid' hadm
  have hstep : G.step s (.work i call) = .ok (s.withSource i w) := by
    rw [step]
    show (workCall _ _ call' >>= _) = _
    rw [hw, ok_bind]
  have hgrow : ∀ j, s.stream j <+: (s.withSource i w).stream j := by
    intro j
    rw [FlowState.stream, FlowState.stream]
    rcases eq_or_ne j i with rfl | hne
    · rw [s.withSource_self]
      exact (items_of_workCall hw).map OutItem.toItem
    · rw [s.withSource_of_ne hne]
  refine ⟨_, hstep, ⟨run_concat h.reached hstep, fun j => ?_, ?_⟩⟩
  · rcases eq_or_ne j i with rfl | hne
    · rw [s.withSource_self, hpackets]
      exact ⟨taken', delivered', queue', hwtracks⟩
    · rw [s.withSource_of_ne hne, arrivedAt_work_ne _ _ hne.symm]
      exact h.tracks j
  · refine h.phase.later (fun hwait => ?_)
      (fun base count hfwd => ⟨count, hfwd.of_streams rfl hgrow⟩) (fun _ => rfl)
    refine ⟨hwait.synchronized, fun j => ?_, hwait.boundary,
      fun j => (hwait.read_le j).trans (hgrow j).length_le, hwait.silent, hwait.published⟩
    rcases eq_or_ne j i with rfl | hne
    · have hquiet : call'.Quiet := by
        simp only [call', hwait.synchronized]
        rfl
      rw [s.withSource_self, hwquiet hquiet, hwait.quiet]
    · rw [s.withSource_of_ne hne, hwait.quiet]

-- ════════════════════════════════════════════════════════════════════════
-- Calls of the synchronizer
-- ════════════════════════════════════════════════════════════════════════

variable (G) in
theorem step_generalWork {noutputItems : ℕ} (hlen : ∀ i, noutputItems ≤ (s.waiting i).length)
    {synchronizer : Synchronizer n TimeVector}
    (hwork : Synchronizer.generalWork noutputItems s.waiting s.synchronizer = .ok synchronizer) :
    G.step s (.generalWork noutputItems) = .ok { s with synchronizer := synchronizer } := by
  have havailable : ∀ i, forecast noutputItems i ≤ (s.waiting i).length := hlen
  rw [step, if_pos havailable, hwork, ok_bind]

/-- The number at the head of a stream that carries tags. -/
theorem Composed.head (h : G.Composed events s) (hwait : Waiting s)
    (ht : G.Traffic first events) {i : Fin n}
    (hlt : s.synchronizer.nitemsRead i < (s.stream i).length) :
    s.synchronizer.nitemsRead i <
        frameCount (G.blocks i).cfg.bOnePacket (arrivedAt i events) * 16 ∧
      Synchronizer.tag0 (s.waiting i) =
        .ok (announcedAt (G.blocks i).cfg.bOnePacket (arrivedAt i events)
          (itemTime (arrivedAt i events) (s.synchronizer.nitemsRead i))) := by
  obtain ⟨taken, delivered, queue, htracks⟩ := h.tracks i
  rw [FlowState.stream, List.length_map] at hlt
  have hitem := List.getElem?_eq_getElem hlt
  refine ⟨htracks.items_length_lt (ht.lossy i) hlt, ?_⟩
  rw [← htracks.item_tag (ht.lossy i) (hwait.quiet i) hitem]
  refine Synchronizer.tag0_of_head ?_
  rw [FlowState.waiting, List.head?_drop, FlowState.stream, List.getElem?_map, hitem,
    Option.map_some]

theorem Composed.of_concat_generalWork (h : G.Composed events s) {noutputItems : ℕ}
    (hstep : G.step s (.generalWork noutputItems) = .ok s') (hsources : s'.sources = s.sources)
    (hphase : G.Phase (events ++ [.generalWork noutputItems]) s') :
    G.Composed (events ++ [.generalWork noutputItems]) s' where
  reached := run_concat h.reached hstep
  tracks := fun i => by
    rw [arrivedAt_generalWork, hsources]
    exact h.tracks i
  phase := hphase

/-- The synchronizing call. -/
theorem Composed.synchronize (h : G.Composed events s) (hwait : Waiting s)
    (ht : G.Traffic first events) {noutputItems : ℕ} (hpos : 0 < noutputItems)
    (havailable : ∀ i, s.synchronizer.nitemsRead i + noutputItems ≤ (s.stream i).length)
    {tagList : Fin n → ℕ} (htags : ∀ i, Synchronizer.tag0 (s.waiting i) = .ok (tagList i))
    (hequal : ∀ i j, tagList i = tagList j) :
    ∃ s', G.step s (.generalWork noutputItems) = .ok s' ∧
      G.Composed (events ++ [.generalWork noutputItems]) s' ∧
      G.SynchronizedAt events s.synchronizer.nitemsRead (Finset.univ.sup tagList) ∧
      Forwarding s.synchronizer.nitemsRead noutputItems s' := by
  have hlen : ∀ i, noutputItems ≤ (s.waiting i).length := fun i => by
    have hi := havailable i
    rw [FlowState.waiting, List.length_drop]
    omega
  have hwork := Synchronizer.generalWork_synchronizing hwait.synchronized hlen htags hequal
  have hstep := G.step_generalWork hlen hwork
  have htag : ∀ i, tagList i = Finset.univ.sup tagList := fun i =>
    le_antisymm (Finset.le_sup (f := tagList) (Finset.mem_univ i))
      (Finset.sup_le fun j _ => (hequal j i).le)
  have hat : G.SynchronizedAt events s.synchronizer.nitemsRead (Finset.univ.sup tagList) := by
    refine ⟨⟨s, h.reached, hwait.synchronized, fun i => by rw [htags i, htag i]⟩, fun i => ?_⟩
    have hi := havailable i
    obtain ⟨hcount, hhead⟩ := h.head hwait ht (i := i) (by omega)
    rw [htags i] at hhead
    exact ⟨hcount, (Except.ok.inj hhead).symm.trans (htag i)⟩
  have hfwd : Forwarding s.synchronizer.nitemsRead noutputItems
      { s with synchronizer := { Synchronizer.forwarded noutputItems s.waiting
        { s.synchronizer with dSynchronized := true } with
        published := s.synchronizer.published ++
          [Synchronizer.syncPdu (Finset.univ.sup tagList)] } } := by
    refine ⟨rfl, hwait.boundary, hpos, fun _ => rfl, havailable, fun i => ?_⟩
    show s.synchronizer.outputItems i ++ _ = _
    rw [hwait.silent i, List.nil_append]
    rfl
  refine ⟨_, hstep, h.of_concat_generalWork hstep rfl ?_, hat, hfwd⟩
  refine .forwarding events [] noutputItems _ noutputItems _ rfl hat ?_ hfwd
  show s.synchronizer.published ++ _ = _
  rw [hwait.published, List.nil_append]

/-- A call that finds different numbers drops whole blocks. -/
theorem Composed.drop (h : G.Composed events s) (hwait : Waiting s)
    (ht : G.Traffic first events) {noutputItems : ℕ} (hpos : 0 < noutputItems)
    (hdvd : 16 ∣ noutputItems)
    (havailable : ∀ i, s.synchronizer.nitemsRead i + noutputItems ≤ (s.stream i).length)
    {tagList : Fin n → ℕ} (htags : ∀ i, Synchronizer.tag0 (s.waiting i) = .ok (tagList i))
    (hdiffer : ¬ ∀ i j, tagList i = tagList j) :
    ∃ s', G.step s (.generalWork noutputItems) = .ok s' ∧
      G.Composed (events ++ [.generalWork noutputItems]) s' := by
  have hlen : ∀ i, noutputItems ≤ (s.waiting i).length := fun i => by
    have hi := havailable i
    rw [FlowState.waiting, List.length_drop]
    omega
  obtain ⟨t, hwork, hdrop⟩ :=
    Synchronizer.generalWork_dropping noutputItems hwait.synchronized htags hdiffer
  have hstep := G.step_generalWork hlen hwork
  have hmod : ∀ i, tagList i ≡ first i [MOD 16] := fun i => by
    have hi := havailable i
    obtain ⟨hcount, hhead⟩ := h.head hwait ht (i := i) (by omega)
    rw [htags i] at hhead
    rw [Except.ok.inj hhead]
    exact (ht.lossy i).announcedAt_modEq hcount
  refine ⟨_, hstep, h.of_concat_generalWork hstep rfl (.waiting ?_)⟩
  refine ⟨hdrop.synchronized.trans hwait.synchronized, hwait.quiet, fun i => ?_, fun i => ?_,
    fun i => ?_, hdrop.published.trans hwait.published⟩
  · obtain ⟨j, -, hj⟩ := Finset.exists_mem_eq_sup Finset.univ ⟨i, Finset.mem_univ i⟩ tagList
    rw [hdrop.read i]
    refine Nat.dvd_add (hwait.boundary i) (Synchronizer.dvd_itemsToConsume ?_ ?_ hdvd)
    · exact Finset.le_sup (f := tagList) (Finset.mem_univ i)
    · rw [hj]
      exact ((hmod j).trans (ht.congruent j i)).trans (hmod i).symm
  · have hle := Synchronizer.itemsToConsume_le (Finset.univ.sup tagList) (tagList i) noutputItems
    rw [hdrop.read i]
    exact (Nat.add_le_add_left hle _).trans (havailable i)
  · rw [hdrop.items, hwait.silent i]

/-- A synchronized call forwards the next items. -/
theorem Forwarding.generalWork {base : Fin n → ℕ} {count : ℕ} (h : Forwarding base count s)
    {noutputItems : ℕ}
    (havailable : ∀ i, s.synchronizer.nitemsRead i + noutputItems ≤ (s.stream i).length) :
    Forwarding base (count + noutputItems)
      ⟨s.sources, Synchronizer.forwarded noutputItems s.waiting s.synchronizer⟩ where
  synchronized := h.synchronized
  boundary := h.boundary
  pos := Nat.add_pos_left h.pos noutputItems
  read := fun i => by
    show s.synchronizer.nitemsRead i + noutputItems = _
    rw [h.read i, Nat.add_assoc]
  read_le := fun i => by
    have hi := havailable i
    rw [h.read i, Nat.add_assoc] at hi
    exact hi
  output := fun i => by
    show s.synchronizer.outputItems i ++ ((s.waiting i).take noutputItems).map Item.data = _
    rw [h.output i, FlowState.waiting, h.read i, ← List.map_append, ← List.drop_drop,
      ← List.take_add]
    rfl

/-- The call of the synchronizer, made or not. -/
theorem Composed.generalWork (h : G.Composed events s) {noutputItems : ℕ}
    (ht : G.Traffic first (events ++ [.generalWork noutputItems])) :
    ∃ s', G.step s (.generalWork noutputItems) = .ok s' ∧
      G.Composed (events ++ [.generalWork noutputItems]) s' := by
  obtain ⟨hpos, hdvd⟩ : 0 < noutputItems ∧ 16 ∣ noutputItems :=
    ht.valid (.generalWork noutputItems) (by simp)
  by_cases hlen : ∀ i, noutputItems ≤ (s.waiting i).length
  · have havailable : ∀ i, s.synchronizer.nitemsRead i + noutputItems ≤ (s.stream i).length := by
      intro i
      have hi := hlen i
      rw [FlowState.waiting, List.length_drop] at hi
      omega
    cases hphase : h.phase with
    | waiting hwait =>
      let tagList : Fin n → ℕ := fun i => announcedAt (G.blocks i).cfg.bOnePacket
        (arrivedAt i events) (itemTime (arrivedAt i events) (s.synchronizer.nitemsRead i))
      have htags : ∀ i, Synchronizer.tag0 (s.waiting i) = .ok (tagList i) := fun i =>
        (h.head hwait ht.of_concat (lt_of_lt_of_le (Nat.lt_add_of_pos_right hpos)
          (havailable i))).2
      by_cases hequal : ∀ i j, tagList i = tagList j
      · obtain ⟨s', hstep, hs', -⟩ :=
          h.synchronize hwait ht.of_concat hpos havailable htags hequal
        exact ⟨s', hstep, hs'⟩
      · exact h.drop hwait ht.of_concat hpos hdvd havailable htags hequal
    | forwarding before after noutputItems' base count tag hsplit hat hpublished hfwd =>
      have hwork := Synchronizer.generalWork_synchronized hfwd.synchronized hlen
      have hstep := G.step_generalWork hlen hwork
      refine ⟨_, hstep, h.of_concat_generalWork hstep rfl ?_⟩
      refine .forwarding before (after ++ [.generalWork noutputItems]) noutputItems' base
        (count + noutputItems) tag ?_ hat hpublished (hfwd.generalWork havailable)
      rw [hsplit, List.append_assoc, List.cons_append]
  · have hstep : G.step s (.generalWork noutputItems) = .ok s := if_neg hlen
    refine ⟨s, hstep, h.of_concat_generalWork hstep rfl ?_⟩
    exact h.phase.later id (fun _ count hfwd => ⟨count, hfwd⟩) fun _ => rfl

theorem step_work {i : Fin n} {call : Call} (hquiet : call.Quiet)
    (h : G.step s (.work i call) = .ok s') :
    ∃ w, workCall (G.blocks i).cfg (s.sources i) call = .ok w ∧ s' = s.withSource i w := by
  have hcall : (if s.synchronizer.dSynchronized then call else call.quiet) = call := by
    split_ifs
    · rfl
    · rw [Call.quiet, ← show call.messages = [] from hquiet]
  rw [step, hcall] at h
  cases hw : workCall (G.blocks i).cfg (s.sources i) call with
  | error e => simp [hw, error_bind] at h
  | ok w =>
    rw [hw, ok_bind] at h
    exact ⟨w, rfl, (Except.ok.inj h).symm⟩

/-- Without handshakes and calls of the synchronizer, every source runs as it does
alone, and the synchronizer stays as it was. -/
theorem run_works (hworks : ∀ e ∈ events, ∃ i call, e = .work i call ∧ call.Quiet)
    (h : G.run events = .ok s) : s.synchronizer = Synchronizer.initial n TimeVector ∧
      ∀ i, (G.blocks i).run (G.env i) (callsAt i events) = .ok (s.sources i) := by
  cases hinit : Ports.collect fun i => start (G.blocks i).cfg (G.blocks i).unset (G.env i) with
  | error e => simp [run, initial, hinit, error_bind] at h
  | ok start =>
    rw [run, initial, hinit, ok_bind, ok_bind] at h
    have hstart := Ports.ok_of_collect hinit
    refine Execution.run_history_partial
      (fun events s => s.synchronizer = Synchronizer.initial n TimeVector ∧
        ∀ i, (G.blocks i).run (G.env i) (callsAt i events) = .ok (s.sources i))
      (fun e => ∃ i call, e = .work i call ∧ call.Quiet) ?_ [] ⟨rfl, fun i => ?_⟩ hworks h
    · rintro events t _ t' ⟨hsync, hsources⟩ ⟨i, call, rfl, hquiet⟩ hstep
      obtain ⟨w, hw, rfl⟩ := step_work hquiet hstep
      refine ⟨hsync, fun j => ?_⟩
      rcases eq_or_ne j i with rfl | hne
      · have hrun := hsources j
        rw [VoltageBlock.run, workRun, hstart j, ok_bind] at hrun ⊢
        rw [callsAt_work_self, t.withSource_self]
        exact Execution.run_concat_ok hrun hw
      · rw [callsAt_work_ne _ _ hne.symm, t.withSource_of_ne hne]
        exact hsources j
    · rw [VoltageBlock.run, workRun, hstart i, ok_bind]
      rfl

variable (G) in
theorem composed_initial : ∃ s, G.initial = .ok s ∧ G.Composed [] s := by
  choose source hstart hsync htracks using fun i => (G.blocks i).start_tracks (G.env i)
  have hinit : G.initial =
      .ok ⟨fun i => ⟨source i, []⟩, Synchronizer.initial n TimeVector⟩ := by
    rw [initial, Ports.collect_ok hstart, ok_bind]
  refine ⟨_, hinit, ⟨?_, fun i => ⟨[], [], [], htracks i⟩, .waiting ?_⟩⟩
  · rw [run, hinit, ok_bind, Execution.run_nil]
  · exact ⟨rfl, hsync, fun _ => dvd_zero 16, fun _ => Nat.zero_le _, fun _ => rfl, rfl⟩

variable (G) in
/-- Every run over lossy streams returns, in one of the two phases. -/
theorem run_composed (ht : G.Traffic first events) :
    ∃ s, G.run events = .ok s ∧ G.Composed events s := by
  obtain ⟨s₀, hinit, h₀⟩ := G.composed_initial
  obtain ⟨s, hs, hcomposed⟩ := Execution.run_closed G.Composed (G.Traffic first)
    (fun _ _ h => h.of_concat) (fun events s e h ht => by
      cases e with
      | work i call => exact h.work ht
      | generalWork noutputItems => exact h.generalWork ht) h₀ ht
  refine ⟨s, ?_, hcomposed⟩
  rw [run, hinit, ok_bind]
  exact hs

end Flowgraph

end GrAta
