import GrAta.Flowgraph.Alignment

/-!
# The streams behind a synchronizer

Sources of one mode behind a synchronizer. In blocks of several packets a frame, no frame is
lost as a whole. Then the sequence numbers of all streams run ahead of their frames by the
same distance, and the synchronizer cuts every stream at the frame with which the last one
starts.

## Main definitions

- `Flowgraph.Supply`: what arrives at the sources in all
- `Flowgraph.Supply.output`: what the synchronizer should make of it
- `Flowgraph.Supply.Phase`: the streams are cut where the last one starts

## Main results

- `Flowgraph.Supply.Reached.generalWork`: a call of the synchronizer
- `Flowgraph.Supply.Reached.step`: one event
-/

namespace GrAta

-- ════════════════════════════════════════════════════════════════════════
-- Streams without a missing frame
-- ════════════════════════════════════════════════════════════════════════

/-- No frame between two packets is lost as a whole. -/
def Dense (ps : List Packet) : Prop := ps.IsChain fun p q => timestamp q ≤ timestamp p + 16

namespace LossyStream

variable {B : VoltageBlock} {first : ℕ} {ps : List Packet}

/-- Some packet of every frame up to the last one is delivered. -/
theorem exists_packet (h : LossyStream B first ps) (hdense : Dense ps) {k : ℕ} (hne : ps ≠ [])
    (hk : firstTimestamp ps + 16 * k ≤ lastTimestamp ps) :
    ∃ p ∈ ps, timestamp p = firstTimestamp ps + 16 * k := by
  induction ps using List.reverseRecOn with
  | nil => exact absurd rfl hne
  | append_singleton ps p ih =>
    rcases List.eq_nil_or_concat ps with rfl | ⟨ps, z, rfl⟩
    · rw [List.nil_append] at *
      have hsame : firstTimestamp [p] + 16 * k ≤ firstTimestamp [p] := hk
      exact ⟨p, List.mem_singleton_self p, show firstTimestamp [p] = _ by omega⟩
    · rw [List.concat_eq_append] at *
      have hfirst : firstTimestamp (ps ++ [z] ++ [p]) = firstTimestamp (ps ++ [z]) :=
        firstTimestamp_append (by simp)
      have hlast : timestamp p ≤ timestamp z + 16 :=
        (List.isChain_append.mp hdense).2.2 z (by simp) p (by simp)
      obtain ⟨a, ha⟩ := h.exists_frame (p := z) (by simp)
      obtain ⟨b, hb⟩ := h.exists_frame (p := p) (by simp)
      rw [lastTimestamp_concat] at hk
      rw [hfirst] at hk ha hb ⊢
      by_cases hz : firstTimestamp (ps ++ [z]) + 16 * k ≤ timestamp z
      · obtain ⟨q, hq, ht⟩ := ih h.of_append (List.isChain_append.mp hdense).1 (by simp)
          (by rwa [lastTimestamp_concat])
        exact ⟨q, List.mem_append_left _ hq, ht⟩
      · exact ⟨p, by simp, by omega⟩

/-- The number of a frame that is handed on, and how far it is from the last one. -/
theorem itemTime_le (h : LossyStream B first ps) {onePacket : Bool} {k : ℕ}
    (hk : k < frameCount onePacket ps * 16) :
    itemTime ps k + (if onePacket then 0 else 16) ≤ lastTimestamp ps := by
  rcases List.eq_nil_or_concat ps with rfl | ⟨ps, z, rfl⟩
  · exact absurd rfl (ne_nil_of_frameCount hk)
  · rw [List.concat_eq_append] at *
    obtain ⟨a, ha⟩ := h.exists_frame (p := z) (by simp)
    rw [frameCount_concat ha] at hk
    rw [lastTimestamp_concat, itemTime, ha]
    cases onePacket with
    | true =>
      simp only [if_true] at hk ⊢
      omega
    | false =>
      simp only [Bool.false_eq_true, if_false] at hk ⊢
      omega

/-- Without missing frames, the sequence numbers of a block of several packets a frame run
one frame ahead. -/
theorem announcedAt_dense (h : LossyStream B first ps) {onePacket : Bool}
    (hdense : onePacket = true ∨ Dense ps) {k : ℕ} (hk : k < frameCount onePacket ps * 16) :
    announcedAt onePacket ps (itemTime ps k) = itemTime ps k + if onePacket then 0 else 16 := by
  have hne : ps ≠ [] := ne_nil_of_frameCount hk
  have hle := h.itemTime_le hk
  cases onePacket with
  | true => exact if_pos (Or.inl rfl)
  | false =>
    simp only [Bool.false_eq_true, if_false] at hle ⊢
    have hdense := hdense.resolve_left Bool.false_ne_true
    have hhere := h.exists_packet hdense (k := k / 16) hne (by rw [itemTime] at hle; omega)
    have hnext := h.exists_packet hdense (k := k / 16 + 1) hne (by rw [itemTime] at hle; omega)
    obtain ⟨p, hp, hpt⟩ := hhere
    obtain ⟨q, hq, hqt⟩ := hnext
    have hreceived : packetsAt ps (itemTime ps k) ≠ [] :=
      List.ne_nil_of_mem (mem_packetsAt.mpr ⟨hp, hpt⟩)
    have hqt : timestamp q = itemTime ps k + 16 := by rw [hqt, itemTime]; omega
    obtain ⟨⟨r, hr, hrt⟩, hlt, hleast⟩ := h.nextTimestamp_spec (t := itemTime ps k)
      ⟨q, hq, by omega⟩
    have hmin := hleast q hq (by omega)
    obtain ⟨a, ha⟩ := h.exists_frame hr
    have htime : itemTime ps k = firstTimestamp ps + 16 * (k / 16) := rfl
    rw [announcedAt, if_neg (not_or.mpr ⟨Bool.false_ne_true, hreceived⟩)]
    omega

end LossyStream

namespace Flowgraph

-- ════════════════════════════════════════════════════════════════════════
-- The streams of all sources
-- ════════════════════════════════════════════════════════════════════════

/-- What arrives at the sources in all. The sources have one mode, and their first timestamps
are congruent modulo 16. -/
structure Supply {n : ℕ} (G : Flowgraph n) where
  onePacket : Bool
  mode : ∀ i, (G.blocks i).cfg.bOnePacket = onePacket
  first : Fin n → ℕ
  congruent : ∀ i j, first i ≡ first j [MOD 16]
  packets : Fin n → List Packet
  arrives : ∀ i, packets i ≠ []
  lossy : ∀ i, LossyStream (G.blocks i) (first i) (packets i)
  dense : onePacket = true ∨ ∀ i, Dense (packets i)

variable {n : ℕ} {G : Flowgraph n}

namespace Supply

variable (S : G.Supply)

/-- The timestamp with which a stream starts. -/
def head (i : Fin n) : ℕ := firstTimestamp (S.packets i)

/-- The timestamp with which the last stream starts. -/
def lead : ℕ := Finset.univ.sup S.head

/-- How many items of a stream are before that timestamp. -/
def behind (i : Fin n) : ℕ := S.lead - S.head i

/-- How far the sequence numbers run ahead. -/
def ahead : ℕ := if S.onePacket then 0 else 16

/-- How many items a source outputs. -/
def length (i : Fin n) : ℕ := frameCount S.onePacket (S.packets i) * 16

/-- Item `k` of the stream of a source: row `k % 16` of frame `k / 16`. -/
def item (i : Fin n) (k : ℕ) : TimeVector := ((G.blocks i).streamRow (S.packets i) k).x

theorem sources_nonempty [NeZero n] : (Finset.univ : Finset (Fin n)).Nonempty :=
  ⟨0, Finset.mem_univ 0⟩

/-- How many items of all streams follow the timestamp with which the last one starts. -/
def count [NeZero n] : ℕ :=
  Finset.univ.inf' sources_nonempty fun i => S.length i - S.behind i

/-- What comes out of port `i`: row `k % 16` of the frame of timestamp `lead + 16 * (k / 16)`. -/
def output [NeZero n] (i : Fin n) : List TimeVector :=
  (List.range S.count).map fun k =>
    let frame := frameAt (S.packets i) (S.lead + 16 * (k / 16))
    ⟨(G.blocks i).rowData .x frame (k % 16), frame, k % 16⟩

variable {S}

theorem head_le (i : Fin n) : S.head i ≤ S.lead :=
  Finset.le_sup (f := S.head) (Finset.mem_univ i)

theorem head_add_behind (i : Fin n) : S.head i + S.behind i = S.lead :=
  Nat.add_sub_cancel' (head_le i)

theorem exists_behind_eq_zero (i : Fin n) : ∃ j, S.behind j = 0 := by
  obtain ⟨j, -, hj⟩ := Finset.exists_mem_eq_sup Finset.univ ⟨i, Finset.mem_univ i⟩ S.head
  exact ⟨j, by rw [behind, lead, hj, Nat.sub_self]⟩

theorem head_modEq (i : Fin n) : S.head i ≡ S.first i [MOD 16] := by
  obtain ⟨p, ps, hps⟩ := List.exists_cons_of_ne_nil (S.arrives i)
  have hp := (S.lossy i).timestamp_modEq (p := p) (by rw [hps]; exact List.mem_cons_self)
  rw [head, hps]
  exact hp

theorem dvd_behind (i : Fin n) : 16 ∣ S.behind i := by
  obtain ⟨j, hj⟩ := S.exists_behind_eq_zero i
  have hsum := S.head_add_behind i
  have hsum' := S.head_add_behind j
  have hmod : S.head i % 16 = S.head j % 16 :=
    ((head_modEq i).trans (S.congruent i j)).trans (head_modEq j).symm
  omega

/-- The frames from the cut on. -/
theorem item_behind (i : Fin n) (k : ℕ) :
    let frame := frameAt (S.packets i) (S.lead + 16 * (k / 16))
    S.item i (S.behind i + k) = ⟨(G.blocks i).rowData .x frame (k % 16), frame, k % 16⟩ := by
  have htime : itemTime (S.packets i) (S.behind i + k) = S.lead + 16 * (k / 16) := by
    have hsum := S.head_add_behind i
    rw [itemTime_add (dvd_behind i), itemTime, Nat.mul_div_cancel' (dvd_behind i)]
    exact congrArg (· + 16 * (k / 16)) hsum
  have hrow : (S.behind i + k) % 16 = k % 16 := by
    have := S.dvd_behind i
    omega
  rw [item, VoltageBlock.streamRow, htime, hrow]
  rfl

theorem output_eq [NeZero n] (i : Fin n) :
    S.output i = (List.range S.count).map fun k => S.item i (S.behind i + k) :=
  List.map_congr_left fun k _ => (item_behind i k).symm

theorem count_le [NeZero n] (i : Fin n) : S.count ≤ S.length i - S.behind i :=
  Finset.inf'_le _ (Finset.mem_univ i)

/-- What has arrived of a supply. -/
structure Arrived (S : G.Supply) (events : List (Event n)) : Prop where
  valid : ∀ e ∈ events, e.Valid
  packets : ∀ i, arrivedAt i events <+: S.packets i

theorem Arrived.traffic {events : List (Event n)} (h : S.Arrived events) :
    G.Traffic S.first events where
  valid := h.valid
  congruent := S.congruent
  lossy := fun i => by
    obtain ⟨rest, hrest⟩ := h.packets i
    have hlossy := S.lossy i
    rw [← hrest] at hlossy
    exact hlossy.of_append

variable {events : List (Event n)} {s : FlowState n}

/-- The sequence number of an item that a source has output. -/
theorem Arrived.announcedAt_eq (h : S.Arrived events) {i : Fin n} {k : ℕ} (hdvd : 16 ∣ k)
    (hk : k < frameCount (G.blocks i).cfg.bOnePacket (arrivedAt i events) * 16) :
    announcedAt (G.blocks i).cfg.bOnePacket (arrivedAt i events)
        (itemTime (arrivedAt i events) k) = S.head i + k + S.ahead ∧
      S.head i + k + S.ahead < 2 ^ 64 := by
  have hlossy := h.traffic.lossy i
  have hne : arrivedAt i events ≠ [] := LossyStream.ne_nil_of_frameCount hk
  obtain ⟨rest, hrest⟩ := h.packets i
  have hhead : firstTimestamp (arrivedAt i events) = S.head i := by
    rw [head, ← hrest, firstTimestamp_append hne]
  have htime : itemTime (arrivedAt i events) k = S.head i + k := by
    rw [itemTime, hhead, Nat.mul_div_cancel' hdvd]
  have hdense : (G.blocks i).cfg.bOnePacket = true ∨ Dense (arrivedAt i events) := by
    rw [S.mode i]
    refine S.dense.imp_right fun hall => ?_
    have hwhole := hall i
    rw [← hrest] at hwhole
    exact (List.isChain_append.mp hwhole).1
  have hle := hlossy.itemTime_le hk
  rw [hlossy.announcedAt_dense hdense hk]
  rw [S.mode i, htime] at *
  refine ⟨rfl, lt_of_le_of_lt hle ?_⟩
  obtain ⟨ps, z, hps⟩ := (List.eq_nil_or_concat (arrivedAt i events)).resolve_left hne
  rw [hps, List.concat_eq_append, lastTimestamp_concat]
  exact timestamp_lt z

/-- The stream of a source is the beginning of all that it outputs. -/
theorem Arrived.stream (h : S.Arrived events) (hs : G.Composed events s) (i : Fin n) :
    (s.stream i).map Item.data <+: (List.range (S.length i)).map (S.item i) := by
  obtain ⟨taken, delivered, queue, htracks⟩ := hs.tracks i
  have hdata : (s.stream i).map Item.data = delivered.map Queued.x := by
    rw [← htracks.items_x, FlowState.stream, List.map_map]
    rfl
  have hrows := (S.lossy i).rows_eq
  rw [S.mode i] at hrows
  have hall : delivered <+: (List.range (S.length i)).map
      ((G.blocks i).streamRow (S.packets i)) := by
    rw [length, ← hrows, ← S.mode i]
    exact htracks.delivered_rows.trans ((frameLog_pushed_mono _
      (htracks.taken_arrived.trans (h.packets i))).flatMap _)
  rw [hdata]
  have hitems := hall.map Queued.x
  rwa [List.map_map] at hitems

-- ════════════════════════════════════════════════════════════════════════
-- Events
-- ════════════════════════════════════════════════════════════════════════

/-- Before the synchronization no stream is cut behind the timestamp with which the last one
starts, afterwards all are cut there. -/
inductive Phase (S : G.Supply) (s : FlowState n) : Prop
  | waiting (h : Waiting s) (hread : ∀ i, s.synchronizer.nitemsRead i ≤ S.behind i)
  | forwarding (count : ℕ) (hdvd : 16 ∣ count) (h : Forwarding S.behind count s)
      (hpublished : s.synchronizer.published = [Synchronizer.syncPdu (S.lead + S.ahead)])

/-- What holds after the events of a run. -/
structure Reached (S : G.Supply) (events : List (Event n)) (s : FlowState n) : Prop where
  arrived : S.Arrived events
  composed : G.Composed events s
  phase : S.Phase s

variable {s' : FlowState n}

/-- The call of a source leaves the synchronizer alone, and the streams grow. -/
theorem work_grows {i : Fin n} {call : Call} (h : G.step s (.work i call) = .ok s') :
    s'.synchronizer = s.synchronizer ∧ ∀ j, s.stream j <+: s'.stream j := by
  rw [step] at h
  obtain ⟨w, hw, h⟩ := bind_eq_ok h
  cases h
  refine ⟨rfl, fun j => ?_⟩
  rw [FlowState.stream, FlowState.stream]
  rcases eq_or_ne j i with rfl | hne
  · rw [s.withSource_self]
    exact (items_of_workCall hw).map OutItem.toItem
  · rw [s.withSource_of_ne hne]

theorem Phase.work (h : S.Phase s) (hsync : s'.synchronizer = s.synchronizer)
    (hgrow : ∀ i, s.stream i <+: s'.stream i) (hphase : G.Phase events s') : S.Phase s' := by
  cases h with
  | waiting h hread =>
    cases hphase with
    | waiting h' => exact .waiting h' (by rwa [hsync])
    | forwarding _ _ _ _ _ _ _ _ _ h' =>
      have hflag := h'.synchronized
      rw [hsync, h.synchronized] at hflag
      exact Bool.noConfusion hflag
  | forwarding count hdvd h hpublished =>
    exact .forwarding count hdvd (h.of_streams hsync hgrow) (by rwa [hsync])

/-- The numbers that a call of the synchronizer finds. -/
theorem Reached.tag0 (h : S.Reached events s) (hwait : Waiting s) {i : Fin n}
    (hlt : 0 < (s.waiting i).length) :
    Synchronizer.tag0 (s.waiting i) = .ok (S.head i + s.synchronizer.nitemsRead i + S.ahead) ∧
      S.head i + s.synchronizer.nitemsRead i + S.ahead < 2 ^ 64 := by
  rw [FlowState.waiting, List.length_drop] at hlt
  obtain ⟨hcount, htag⟩ := h.composed.head hwait h.arrived.traffic (i := i) (by omega)
  obtain ⟨hannounced, hbound⟩ := h.arrived.announcedAt_eq (hwait.boundary i) hcount
  rw [htag, hannounced]
  exact ⟨rfl, hbound⟩

/-- The highest number belongs to a stream that has not been cut. -/
theorem sup_tags (i : Fin n) {read : Fin n → ℕ} (hread : ∀ i, read i ≤ S.behind i) :
    (Finset.univ.sup fun i => S.head i + read i + S.ahead) = S.lead + S.ahead := by
  refine le_antisymm (Finset.sup_le fun j _ => ?_) ?_
  · have hsum := S.head_add_behind j
    have hj := hread j
    omega
  · obtain ⟨j, hj⟩ := S.exists_behind_eq_zero i
    have hsum := S.head_add_behind j
    have hle := Finset.le_sup (f := fun i => S.head i + read i + S.ahead) (Finset.mem_univ j)
    omega

/-- A call of the synchronizer that is made: the phase stays or advances, and some input is
consumed. -/
structure Progresses (S : G.Supply) (s s' : FlowState n) : Prop where
  phase : S.Phase s'
  sources : s'.sources = s.sources
  read : ∀ i, s.synchronizer.nitemsRead i ≤ s'.synchronizer.nitemsRead i
  some : ∃ i, s.synchronizer.nitemsRead i < s'.synchronizer.nitemsRead i

theorem available {noutputItems : ℕ} (hlen : ∀ i, noutputItems ≤ (s.waiting i).length)
    (hread : ∀ i, s.synchronizer.nitemsRead i ≤ (s.stream i).length) (i : Fin n) :
    s.synchronizer.nitemsRead i + noutputItems ≤ (s.stream i).length := by
  have hi := hlen i
  have hread := hread i
  rw [FlowState.waiting, List.length_drop] at hi
  omega

/-- A call that finds different timestamps drops items of the streams that are behind. -/
theorem Reached.drop (h : S.Reached events s) (hwait : Waiting s)
    (hread : ∀ i, s.synchronizer.nitemsRead i ≤ S.behind i) {noutputItems : ℕ}
    (hpos : 0 < noutputItems) (hdvd : 16 ∣ noutputItems)
    (hlen : ∀ i, noutputItems ≤ (s.waiting i).length)
    (hbehind : ¬∀ i, s.synchronizer.nitemsRead i = S.behind i) :
    ∃ s', G.step s (.generalWork noutputItems) = .ok s' ∧ S.Progresses s s' := by
  have htag := fun i => h.tag0 hwait (hpos.trans_le (hlen i))
  have hdiffer : ¬∀ i j, S.head i + s.synchronizer.nitemsRead i + S.ahead =
      S.head j + s.synchronizer.nitemsRead j + S.ahead := by
    intro hequal
    refine hbehind fun i => ?_
    obtain ⟨j, hj⟩ := S.exists_behind_eq_zero i
    have hij := hequal i j
    have hsum := S.head_add_behind i
    have hsum' := S.head_add_behind j
    have hi := hread i
    have hj' := hread j
    omega
  obtain ⟨t, hwork, hdropped⟩ := Synchronizer.generalWork_dropping noutputItems
    hwait.synchronized (fun i => (htag i).1) hdiffer
  -- a stream drops what it is behind, as far as the call goes
  have hconsumed : ∀ i, t.nitemsRead i = s.synchronizer.nitemsRead i +
      min (S.behind i - s.synchronizer.nitemsRead i) noutputItems := by
    intro i
    have hsum := S.head_add_behind i
    have hi := hread i
    have hlt : S.lead + S.ahead < 2 ^ 64 := by
      obtain ⟨j, hj⟩ := S.exists_behind_eq_zero i
      have hbound := (htag j).2
      have hsum' := S.head_add_behind j
      omega
    rw [hdropped.read i, sup_tags i hread, Synchronizer.itemsToConsume_eq _ (by omega) hlt]
    congr 2
    omega
  have hstep := G.step_generalWork hlen hwork
  obtain ⟨s', hstep', hcomposed⟩ :=
    h.composed.drop hwait h.arrived.traffic hpos hdvd (available hlen hwait.read_le)
      (fun i => (htag i).1) hdiffer
  obtain rfl := Except.ok.inj (hstep'.symm.trans hstep)
  refine ⟨_, hstep, .waiting ?_ fun i => ?_, rfl, fun i => ?_, ?_⟩
  · cases hcomposed.phase with
    | waiting hwait' => exact hwait'
    | forwarding _ _ _ _ _ _ _ _ _ hforward =>
      have hflag := hforward.synchronized
      rw [show t.dSynchronized = false from hdropped.synchronized.trans hwait.synchronized] at hflag
      exact Bool.noConfusion hflag
  · have hi := hread i
    show t.nitemsRead i ≤ _
    rw [hconsumed i]
    omega
  · show _ ≤ t.nitemsRead i
    rw [hconsumed i]
    exact Nat.le_add_right _ _
  · obtain ⟨i, hi⟩ := not_forall.mp hbehind
    have hle := hread i
    refine ⟨i, ?_⟩
    show _ < t.nitemsRead i
    rw [hconsumed i]
    omega

variable [NeZero n]

/-- A call that finds all streams cut at one timestamp synchronizes there. -/
theorem Reached.synchronize (h : S.Reached events s) (hwait : Waiting s) {noutputItems : ℕ}
    (hpos : 0 < noutputItems) (hdvd : 16 ∣ noutputItems)
    (hlen : ∀ i, noutputItems ≤ (s.waiting i).length)
    (hlevel : ∀ i, s.synchronizer.nitemsRead i = S.behind i) :
    ∃ s', G.step s (.generalWork noutputItems) = .ok s' ∧ S.Progresses s s' := by
  have htag : ∀ i, Synchronizer.tag0 (s.waiting i) = .ok (S.lead + S.ahead) := fun i => by
    rw [(h.tag0 hwait (hpos.trans_le (hlen i))).1, hlevel i, head_add_behind]
  obtain ⟨s', hstep, -, -, hforward⟩ := h.composed.synchronize hwait h.arrived.traffic hpos
    (available hlen hwait.read_le) htag fun _ _ => rfl
  have hwork := Synchronizer.generalWork_synchronizing hwait.synchronized hlen htag fun _ _ => rfl
  obtain rfl := Except.ok.inj (hstep.symm.trans (G.step_generalWork hlen hwork))
  refine ⟨_, hstep, ?_, rfl, fun i => Nat.le_add_right _ _, 0, Nat.lt_add_of_pos_right hpos⟩
  refine .forwarding noutputItems hdvd ?_ ?_
  · rw [← show s.synchronizer.nitemsRead = S.behind from funext hlevel]
    exact hforward
  · show s.synchronizer.published ++ _ = _
    rw [hwait.published, List.nil_append, Finset.sup_const ⟨0, Finset.mem_univ 0⟩]

/-- **A call of the synchronizer that is made.** -/
theorem Reached.generalWork (h : S.Reached events s) {noutputItems : ℕ} (hpos : 0 < noutputItems)
    (hdvd : 16 ∣ noutputItems) (hlen : ∀ i, noutputItems ≤ (s.waiting i).length) :
    ∃ s', G.step s (.generalWork noutputItems) = .ok s' ∧ S.Progresses s s' := by
  cases h.phase with
  | waiting hwait hread =>
    by_cases hlevel : ∀ i, s.synchronizer.nitemsRead i = S.behind i
    · exact h.synchronize hwait hpos hdvd hlen hlevel
    · exact h.drop hwait hread hpos hdvd hlen hlevel
  | forwarding count hdvd' hforward hpublished =>
    have hwork := Synchronizer.generalWork_synchronized hforward.synchronized hlen
    refine ⟨_, G.step_generalWork hlen hwork, ?_⟩
    have hread : ∀ i, s.synchronizer.nitemsRead i ≤ (s.stream i).length := fun i => by
      rw [hforward.read i]
      exact hforward.read_le i
    exact ⟨.forwarding _ (Nat.dvd_add hdvd' hdvd) (hforward.generalWork (available hlen hread))
      hpublished, rfl, fun i => Nat.le_add_right _ _, 0, Nat.lt_add_of_pos_right hpos⟩

/-- **One event.** -/
theorem Reached.step (h : S.Reached events s) {e : Event n} (ha : S.Arrived (events ++ [e])) :
    ∃ s', G.step s e = .ok s' ∧ S.Reached (events ++ [e]) s' := by
  cases e with
  | work i call =>
    obtain ⟨s', hstep, hcomposed⟩ := h.composed.work ha.traffic
    obtain ⟨hsync, hgrow⟩ := work_grows hstep
    exact ⟨s', hstep, ha, hcomposed, h.phase.work hsync hgrow hcomposed.phase⟩
  | generalWork noutputItems =>
    obtain ⟨s', hstep, hcomposed⟩ := h.composed.generalWork ha.traffic
    refine ⟨s', hstep, ha, hcomposed, ?_⟩
    by_cases hlen : ∀ i, noutputItems ≤ (s.waiting i).length
    · obtain ⟨hpos, hdvd⟩ := ha.valid (.generalWork noutputItems) (by simp)
      obtain ⟨s'', hstep', hprogress⟩ := h.generalWork hpos hdvd hlen
      rw [Except.ok.inj (hstep.symm.trans hstep')]
      exact hprogress.phase
    · have hstay : G.step s (.generalWork noutputItems) = .ok s := if_neg hlen
      rw [Except.ok.inj (hstep.symm.trans hstay)]
      exact h.phase

end Supply

end Flowgraph

end GrAta
