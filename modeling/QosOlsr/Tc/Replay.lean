import QosOlsr.Tc.Bounds

/-!
# Old TC messages are not replayed

A TC message that is not newer than what is stored is dropped: always when it
repeats the stored message sequence number, and otherwise while fewer than 32
such messages were dropped since the last one that was accepted.
-/

namespace QosOlsr

open Library List

variable {ver : IpVersion}

/-- The number is among the `width` numbers up to and including the stored one,
counted modulo `2 ^ 16`. -/
def InWindow (width stored seq : Nat) : Prop := (stored + 0x10000 - seq) % 0x10000 < width

theorem inWindow_iff {width stored seq : Nat} (storedLt : stored < 0x10000)
    (seqLt : seq < 0x10000) :
    InWindow width stored seq ↔
      if seq ≤ stored then stored - seq < width else stored + 0x10000 - seq < width := by
  unfold InWindow
  split <;> omega

theorem olsrSeqInrangeHigh_iff_inWindow {width stored seq : Nat} (small : width ≤ 0x10000)
    (storedLt : stored < 0x10000) (seqLt : seq < 0x10000) :
    olsrSeqInrangeHigh ((stored : Int) - width) stored seq = true ↔ InWindow width stored seq := by
  rw [inWindow_iff storedLt seqLt, olsrSeqInrangeHigh]
  split_ifs <;> simp only [decide_eq_true_eq] <;> omega

/-- The windows up to and behind a number are intervals modulo `2 ^ 16`. -/
theorem olsrSeqInrange_iff (cur seq : UInt16) {window : Nat} (positive : 0 < window)
    (small : window < 2 ^ 15) :
    (olsrSeqInrangeHigh ((cur.toNat : Int) - window) cur.toNat seq.toNat = true ↔
      (cur - seq).toNat < window) ∧
    (olsrSeqInrangeHigh cur.toNat ((cur.toNat : Int) + window) seq.toNat = true ↔
      0 < (seq - cur).toNat ∧ (seq - cur).toNat ≤ window) ∧
    (olsrSeqInrangeLow cur.toNat ((cur.toNat : Int) + window) seq.toNat = true ↔
      (seq - cur).toNat < window) := by
  have curLt := cur.toNat_lt
  have seqLt := seq.toNat_lt
  have ahead : (seq - cur).toNat =
      if cur.toNat ≤ seq.toNat then seq.toNat - cur.toNat else seq.toNat + 0x10000 - cur.toNat := by
    rw [UInt16.toNat_sub]
    split <;> omega
  refine ⟨?_, ?_, ?_⟩
  · rw [olsrSeqInrangeHigh_iff_inWindow (by omega) curLt seqLt, InWindow, UInt16.toNat_sub]
    omega
  · rw [olsrSeqInrangeHigh, ahead]
    split_ifs <;> simp only [decide_eq_true_eq] <;> omega
  · rw [olsrSeqInrangeLow, ahead]
    split_ifs <;> simp only [decide_eq_true_eq] <;> omega

theorem olsrSeqInrange_at_wrap :
    olsrSeqInrangeHigh 65535 (65535 + 2) 1 = true ∧ olsrSeqInrangeLow 65535 (65535 + 2) 1 = false :=
  ⟨(olsrSeqInrange_iff 65535 1 (by decide) (by decide)).2.1.mpr (by decide),
    Bool.eq_false_iff.mpr fun low =>
      absurd ((olsrSeqInrange_iff 65535 1 (by decide) (by decide)).2.2.mp low) (by decide)⟩

/-- The message is of the originator and not newer than its entry. -/
structure StaleFor (originator : IpAddr ver) (tc : TcEntry ver) (mem : Memory) : Prop where
  originator : (tcHeader mem : TcHeader ver).originator = originator
  msgSeq : InWindow 1024 tc.msgSeq (tcHeader mem : TcHeader ver).msgSeq
  ansn : InWindow 256 tc.ansn (tcHeader mem : TcHeader ver).ansn

/-- The entry as `struct tc_entry` can hold it, with edges. -/
structure StoredTc (tc : TcEntry ver) : Prop where
  edges : tc.edges ≠ []
  msgSeq : tc.msgSeq < 0x10000
  ansn : tc.ansn < 0x10000

theorem tcHeader_lt (mem : Memory) :
    (tcHeader mem : TcHeader ver).msgSeq < 0x10000 ∧ (tcHeader mem : TcHeader ver).ansn < 0x10000 :=
  ⟨readU16_lt mem _, readU16_lt mem _⟩

variable {originator : IpAddr ver} {tc : TcEntry ver} {mem : Memory}

theorem StaleFor.dropTcMessage_eq (stale : StaleFor originator tc mem) (stored : StoredTc tc) :
    dropTcMessage tc (tcHeader mem : TcHeader ver).msgSeq
        (tcHeader mem : TcHeader ver).ansn =
      if tc.msgSeq = (tcHeader mem : TcHeader ver).msgSeq then
        some tc
      else if tc.ignored < 32 then
        some { tc with ignored := tc.ignored + 1 }
      else
        none := by
  have headerLt : (tcHeader mem : TcHeader ver).msgSeq < 0x10000 ∧
        (tcHeader mem : TcHeader ver).ansn < 0x10000 :=
    tcHeader_lt mem
  have someEdge : tc.edges.length ≠ 0 := by
    intro noEdge
    exact stored.edges (length_eq_zero_iff.mp noEdge)
  have inSeq :=
    (olsrSeqInrangeHigh_iff_inWindow (by decide) stored.msgSeq headerLt.1).mpr stale.msgSeq
  have inAnsn := (olsrSeqInrangeHigh_iff_inWindow (by decide) stored.ansn headerLt.2).mpr stale.ansn
  unfold dropTcMessage
  rw [if_neg someEdge, if_pos ⟨inSeq, inAnsn⟩]

def entryAfter (originator : IpAddr ver) (entry : Option (TcEntry ver)) :
    TcEffect ver → Option (TcEntry ver)
  | .unchanged => entry
  | .stored other stored => if other = originator then some stored else entry
  | .deleted other => if other = originator then none else entry
  | .missing => entry

def TcNode.withEntry (node : TcNode ver) (originator : IpAddr ver)
    (entry : Option (TcEntry ver)) : TcNode ver :=
  { node with
    olsrLookupTcEntry := Function.update node.olsrLookupTcEntry originator entry }

theorem olsrInputTc_dropped {noted : TcEntry ver} (node : TcNode ver)
    (isOrig : (tcHeader mem : TcHeader ver).originator = originator)
    (dropped : dropTcMessage tc (tcHeader mem : TcHeader ver).msgSeq
        (tcHeader mem : TcHeader ver).ansn = some noted) :
    let outcome := olsrInputTc (node.withEntry originator (some tc)) mem
    outcome.forward = false ∧
      (entryAfter originator (some tc) outcome.effect = some tc ∨
        entryAfter originator (some tc) outcome.effect = some noted) := by
  dsimp only
  by_cases isTc : IsTc mem
  · rw [olsrInputTc_of_isTc isTc]
    split
    · exact ⟨rfl, Or.inl rfl⟩
    · have found : (node.withEntry originator (some tc)).olsrLookupTcEntry
            (tcHeader mem : TcHeader ver).originator = some tc := by
        rw [isOrig]
        exact Function.update_self ..
      unfold processTcMessage
      simp only [found, Option.bind_some, dropped]
      refine ⟨trivial, Or.inr ?_⟩
      exact if_pos isOrig
  · rw [olsrInputTc_of_not_isTc isTc]
    exact ⟨rfl, Or.inl rfl⟩

/-- Messages one after another, each with the node that receives it; the entry
of the originator is handed on.  The results of `olsr_input_tc` and the entry
in the end. -/
def inputTcs (originator : IpAddr ver) :
    List (TcNode ver × Memory) → Option (TcEntry ver) → List Bool × Option (TcEntry ver)
  | [], entry => ([], entry)
  | (node, mem) :: rest, entry =>
    let outcome := olsrInputTc (node.withEntry originator entry) mem
    let later := inputTcs originator rest (entryAfter originator entry outcome.effect)
    (outcome.forward :: later.1, later.2)

theorem StoredTc.ignore (stored : StoredTc tc) (ignored : Nat) :
    StoredTc { tc with ignored := ignored } :=
  ⟨stored.edges, stored.msgSeq, stored.ansn⟩

theorem StaleFor.ignore (stale : StaleFor originator tc mem) (ignored : Nat) :
    StaleFor originator { tc with ignored := ignored } mem :=
  ⟨stale.originator, stale.msgSeq, stale.ansn⟩

/-- A stale message is dropped while fewer than 32 were, and counts as at most
one more. -/
theorem StaleFor.olsrInputTc_rejects (stale : StaleFor originator tc mem) (stored : StoredTc tc)
    (fewIgnored : tc.ignored < 32) (node : TcNode ver) :
    let outcome := olsrInputTc (node.withEntry originator (some tc)) mem
    outcome.forward = false ∧ ∃ ignored ≤ tc.ignored + 1,
        entryAfter originator (some tc) outcome.effect = some { tc with ignored := ignored } := by
  have dropEq := stale.dropTcMessage_eq stored
  rw [if_pos fewIgnored] at dropEq
  split at dropEq
  · obtain ⟨forward, same | same⟩ := olsrInputTc_dropped node stale.originator dropEq
    · exact ⟨forward, tc.ignored, Nat.le_succ _, same⟩
    · exact ⟨forward, tc.ignored, Nat.le_succ _, same⟩
  · obtain ⟨forward, same | counted⟩ := olsrInputTc_dropped node stale.originator dropEq
    · exact ⟨forward, tc.ignored, Nat.le_succ _, same⟩
    · exact ⟨forward, tc.ignored + 1, le_rfl, counted⟩

theorem inputTcs_rejects (stored : StoredTc tc) (messages : List (TcNode ver × Memory)) :
    ∀ ignored, ignored + messages.length ≤ 32 →
      (∀ msg ∈ messages, StaleFor originator tc msg.2) →
      ∃ counted, inputTcs originator messages (some { tc with ignored := ignored }) =
          (List.replicate messages.length false, some { tc with ignored := counted }) := by
  induction messages with
  | nil =>
    intro ignored _ _
    exact ⟨ignored, rfl⟩
  | cons msg rest ih =>
    intro ignored few stale
    rcases msg with ⟨node, mem⟩
    rw [length_cons] at few
    have messageStale := stale (node, mem) mem_cons_self
    obtain ⟨forward, next, nextLe, entryEq⟩ := (messageStale.ignore ignored).olsrInputTc_rejects
        (stored.ignore ignored) (by dsimp only; omega) node
    dsimp only at nextLe entryEq
    obtain ⟨counted, restEq⟩ := ih next (by omega) fun other isRest =>
        stale other (mem_cons_of_mem _ isRest)
    refine ⟨counted, ?_⟩
    rw [inputTcs]
    simp only [forward, entryEq, restEq]
    rfl

/-- Up to 32 stale messages since the last accepted one are all dropped and
leave everything of the entry but their count; one with the stored message
sequence number is dropped at any time and changes nothing. -/
theorem olsrInputTc_not_replayed (originator : IpAddr ver) (tc : TcEntry ver)
    (stored : StoredTc tc) :
    (∀ messages : List (TcNode ver × Memory), tc.ignored = 0 → messages.length ≤ 32 →
        (∀ msg ∈ messages, StaleFor originator tc msg.2) →
        ∃ counted, inputTcs originator messages (some tc) =
            (List.replicate messages.length false, some { tc with ignored := counted })) ∧
      ∀ (node : TcNode ver) (mem : Memory), StaleFor originator tc mem →
        (tcHeader mem : TcHeader ver).msgSeq = tc.msgSeq →
        inputTcs originator [(node, mem)] (some tc) = ([false], some tc) := by
  constructor
  · intro messages noneIgnored few stale
    have rejected := inputTcs_rejects stored messages 0 (by omega) stale
    have same : { tc with ignored := 0 } = tc := by rw [← noneIgnored]
    rw [same] at rejected
    exact rejected
  · intro node mem stale repeats
    have dropEq := stale.dropTcMessage_eq stored
    rw [if_pos repeats.symm] at dropEq
    obtain ⟨forward, same | same⟩ := olsrInputTc_dropped node stale.originator dropEq
    · rw [inputTcs, inputTcs]
      simp only [forward, same]
    · rw [inputTcs, inputTcs]
      simp only [forward, same]

/-- An entry whose message sequence number has just wrapped around. -/
def wrappedEntry : TcEntry .inet := ⟨[⟨.v4 10 0 0 2, 3, [0, 0, 0, 0]⟩], 0, 5, 3, 0, 0, false⟩

def wrappedMessage : Memory := ofBytes [202, 134, 0, 16, 10, 0, 0, 9, 255, 0, 255, 255, 0, 3, 0, 0]

theorem olsrInputTc_not_replayed_wrapped : StoredTc wrappedEntry ∧
      StaleFor ⟨[10, 0, 0, 9], rfl⟩ wrappedEntry wrappedMessage ∧
      ∀ node : TcNode .inet, ∃ counted, inputTcs ⟨[10, 0, 0, 9], rfl⟩ [(node, wrappedMessage)]
              (some wrappedEntry) =
            ([false], some { wrappedEntry with ignored := counted }) := by
  have stored : StoredTc wrappedEntry := ⟨cons_ne_nil _ _, by decide, by decide⟩
  have stale : StaleFor ⟨[10, 0, 0, 9], rfl⟩ wrappedEntry wrappedMessage :=
    ⟨by decide, by unfold InWindow; decide, by unfold InWindow; decide⟩
  refine ⟨stored, stale, fun node => ?_⟩
  refine (olsrInputTc_not_replayed ⟨[10, 0, 0, 9], rfl⟩ wrappedEntry stored).1
      [(node, wrappedMessage)] rfl (by simp) ?_
  intro msg isMessage
  rw [mem_singleton.mp isMessage]
  exact stale

end QosOlsr
