import Mathlib.Algebra.BigOperators.Group.List.Basic
import QuantTrade.MarketData.ReplayBuffer

/-!
# The pace of a replay

In its real-time mode the replayer waits before a packet for what is left of the time between the
first packet and this one.  The difference of the time stamps is taken in the arithmetic of 64 bits,
so for a packet that is older than the first one it is close to 2⁶⁴.  It becomes a signed number of
nanoseconds again when the thread is put to sleep, and a negative one is no sleep; the wait is wrong
exactly when this sum leaves the range of the signed numbers (`sleepNs_eq_iff`), which takes a clock
that has run for more than a century since the first packet.
-/

namespace QuantTrade

namespace Replay

/-- The time stamp of a packet in nanoseconds, as an integer. -/
def tsNs (nanoTs : Bool) (p : PcapPacket) : ℤ :=
  p.header.tsSec.toNat * 1000000000 +
    if nanoTs then (p.header.tsUsec.toNat : ℤ) else p.header.tsUsec.toNat * 1000

/-- Nothing overflows in a time stamp. -/
lemma toNat_pktTsNs (nanoTs : Bool) (p : PcapPacket) :
    ((pktTsNs nanoTs p.header).toNat : ℤ) = tsNs nanoTs p := by
  have hsec := p.header.tsSec.toNat_lt
  have husec := p.header.tsUsec.toNat_lt
  have hbillion : (1000000000 : UInt64).toNat = 1000000000 := rfl
  have hthousand : (1000 : UInt64).toNat = 1000 := rfl
  unfold pktTsNs tsNs
  cases nanoTs with
  | false =>
    rw [if_neg Bool.false_ne_true, if_neg Bool.false_ne_true]
    rw [UInt64.toNat_add, UInt64.toNat_mul, UInt64.toNat_mul, UInt32.toNat_toUInt64,
      UInt32.toNat_toUInt64, hbillion, hthousand]
    omega
  | true =>
    rw [if_pos rfl, if_pos rfl, UInt64.toNat_add, UInt64.toNat_mul, UInt32.toNat_toUInt64,
      UInt32.toNat_toUInt64, hbillion]
    omega

/-- Time stamps have at most 62 bits. -/
lemma tsNs_bounds (nanoTs : Bool) (p : PcapPacket) :
    0 ≤ tsNs nanoTs p ∧ tsNs nanoTs p < 2 ^ 62 := by
  have hsec := p.header.tsSec.toNat_lt
  have husec := p.header.tsUsec.toNat_lt
  unfold tsNs
  split_ifs <;> omega

/-- The wait is that of the integers except for a packet that is older than the first one by a
distance which, together with the elapsed time, is between 2⁶³ and 2⁶⁴ nanoseconds. -/
lemma sleepNs_eq_iff {first firstWall ts now : UInt64} (hfirst : first.toNat < 2 ^ 63)
    (hts : ts.toNat < 2 ^ 63) (hwall : firstWall.toNat ≤ now.toNat) :
    (sleepNs first firstWall ts now : ℤ) =
        max 0 (((ts.toNat : ℤ) - first.toNat) - (now.toNat - firstWall.toNat)) ↔
      ¬(ts.toNat < first.toNat ∧
        2 ^ 63 < first.toNat - ts.toNat + (now.toNat - firstWall.toNat) ∧
        first.toNat - ts.toNat + (now.toNat - firstWall.toNat) < 2 ^ 64) := by
  have hnow := now.toNat_lt
  have hdelta : (ts - first).toNat =
      if ts.toNat < first.toNat then 2 ^ 64 - (first.toNat - ts.toNat)
      else ts.toNat - first.toNat := by
    rw [UInt64.toNat_sub]
    split_ifs <;> omega
  have helapsed : (now - firstWall).toNat = now.toNat - firstWall.toNat := by
    rw [UInt64.toNat_sub]
    omega
  unfold sleepNs sleepFor
  dsimp only
  by_cases hwait : ts - first > now - firstWall
  · have hlt : now.toNat - firstWall.toNat < (ts - first).toNat := by
      rw [← helapsed]
      exact UInt64.lt_iff_toNat_lt.mp hwait
    have hasked : (ts - first - (now - firstWall)).toInt64.toInt =
        (((ts - first).toNat - (now.toNat - firstWall.toNat) : ℕ) : ℤ).bmod (2 ^ 64) := by
      change (ts - first - (now - firstWall)).toBitVec.toInt = _
      rw [BitVec.toInt_eq_toNat_bmod]
      congr 2
      change (ts - first - (now - firstWall)).toNat = _
      rw [UInt64.toNat_sub, helapsed]
      have := (ts - first).toNat_lt
      omega
    rw [if_pos hwait, hasked, Int.bmod_def]
    clear hasked hwait helapsed
    generalize (ts - first).toNat = delta at hlt hdelta ⊢
    push_cast
    split_ifs at hdelta ⊢ <;> omega
  · have hle : (ts - first).toNat ≤ now.toNat - firstWall.toNat := by
      rw [← helapsed]
      exact UInt64.le_iff_toNat_le.mp (UInt64.not_lt.mp hwait)
    rw [if_neg hwait]
    rw [hdelta] at hle
    split_ifs at hle <;> omega

/-! ## The waits of a replay -/

/-- A replay in real time that has its references. -/
structure Referenced (nanoTs : Bool) (first firstWall : UInt64) (clockReads : ℕ) (sleeps : List ℕ)
    (r : Replay) : Prop where
  mode_eq : r.mode = .realtime
  nanoTs_eq : r.nanoTs = nanoTs
  firstPktTsNs_eq : r.firstPktTsNs = first
  firstWallNs_eq : r.firstWallNs = firstWall
  firstPacket_eq : r.firstPacket = false
  clockReads_eq : r.clockReads = clockReads
  sleeps_eq : r.sleeps = sleeps

/-- The first packet sets the references and waits for nothing more than the time of two readings of
the clock. -/
lemma referenced_first (replayer : PcapReplayer) (pktsReplayed : ℕ) (clock : ℕ → UInt64)
    (pktBuf : ℕ → UInt8) (nanoTs swapEndian : Bool) (p : PcapPacket) :
    Referenced nanoTs (pktTsNs nanoTs p.header) (clock 1) 3
      [sleepNs (pktTsNs nanoTs p.header) (clock 1) (pktTsNs nanoTs p.header) (clock 2)]
      ((start replayer .realtime pktsReplayed clock pktBuf nanoTs swapEndian).deliver clock p) := by
  unfold deliver
  obtain ⟨replayer', calls, hdispatch⟩ := exists_dispatch_eq
    (({ start replayer .realtime pktsReplayed clock pktBuf nanoTs swapEndian with
      pktBuf := fill pktBuf p.data }).arrive clock (pktTsNs nanoTs p.header))
    p.header.inclLen.toNat (pktTsNs nanoTs p.header)
  exact hdispatch ▸ ⟨rfl, rfl, rfl, rfl, rfl, rfl, rfl⟩

/-- Every further packet waits for what its time stamp and a new reading of the clock say. -/
lemma Referenced.deliver {nanoTs : Bool} {first firstWall : UInt64} {clockReads : ℕ}
    {sleeps : List ℕ} {r : Replay} (h : Referenced nanoTs first firstWall clockReads sleeps r)
    (clock : ℕ → UInt64) (p : PcapPacket) :
    Referenced nanoTs first firstWall (clockReads + 1)
      (sleeps ++ [sleepNs first firstWall (pktTsNs nanoTs p.header) (clock clockReads)])
      (r.deliver clock p) := by
  obtain ⟨replayer, mode, nano, swap, pktsReplayed, firstPktTsNs, firstWallNs, firstPacket, pktBuf,
    reads, slept, calls⟩ := r
  obtain ⟨hmode, hnano, hfirst, hwall, hpacket, hreads, hsleeps⟩ := h
  dsimp only at hmode hnano hfirst hwall hpacket hreads hsleeps
  subst hmode hnano hfirst hwall hpacket hreads hsleeps
  unfold Replay.deliver
  obtain ⟨replayer', calls', hdispatch⟩ := exists_dispatch_eq
    (arrive clock ⟨replayer, .realtime, nano, swap, pktsReplayed, firstPktTsNs, firstWallNs, false,
      fill pktBuf p.data, reads, slept, calls⟩ (pktTsNs nano p.header))
    p.header.inclLen.toNat (pktTsNs nano p.header)
  exact hdispatch ▸ ⟨rfl, rfl, rfl, rfl, rfl, rfl, rfl⟩

/-- The waits of some further packets. -/
lemma Referenced.foldl {nanoTs : Bool} {first firstWall : UInt64} {clockReads : ℕ}
    {sleeps : List ℕ} {r : Replay} (h : Referenced nanoTs first firstWall clockReads sleeps r)
    (clock : ℕ → UInt64) (ps : List PcapPacket) :
    (ps.foldl (Replay.deliver clock) r).sleeps = sleeps ++ ps.mapIdx fun k p =>
      sleepNs first firstWall (pktTsNs nanoTs p.header) (clock (clockReads + k)) := by
  induction ps generalizing clockReads sleeps r with
  | nil => simp [h.sleeps_eq]
  | cons p ps ih =>
    rw [List.foldl_cons, ih (h.deliver clock p), List.mapIdx_cons, List.append_assoc]
    simp [Nat.add_comm, Nat.add_left_comm]

/-- The waits of a replay in real time: the clock is read once when the first packet is there, and
then once for every packet. -/
lemma sleeps_foldl (replayer : PcapReplayer) (pktsReplayed : ℕ) (clock : ℕ → UInt64)
    (pktBuf : ℕ → UInt8) (nanoTs swapEndian : Bool) (first : PcapPacket) (ps : List PcapPacket) :
    ((first :: ps).foldl (deliver clock)
        (start replayer .realtime pktsReplayed clock pktBuf nanoTs swapEndian)).sleeps =
      (first :: ps).mapIdx fun k p =>
        sleepNs (pktTsNs nanoTs first.header) (clock 1) (pktTsNs nanoTs p.header)
          (clock (2 + k)) := by
  rw [List.foldl_cons, Referenced.foldl (referenced_first replayer pktsReplayed clock pktBuf nanoTs
    swapEndian first) clock ps, List.mapIdx_cons, List.singleton_append]
  simp [Nat.add_comm]

/-- The waits of a replay are right: each is what is left of the time between the first packet and
this one, in integers, after the time since the first packet was read.  And when the clock counts
the waits, all of them together take no longer than the capture. -/
structure PacesRight (clock : ℕ → UInt64) (nanoTs : Bool) (ps : List PcapPacket)
    (sleeps : List ℕ) : Prop where
  length_eq : sleeps.length = ps.length
  sleep_eq : ∀ first k p (sleep : ℕ), ps.head? = some first → ps[k]? = some p →
    sleeps[k]? = some sleep →
      (sleep : ℤ) = max 0 ((tsNs nanoTs p - tsNs nanoTs first) -
        ((clock (2 + k)).toNat - (clock 1).toNat))
  sum_le : (∀ k (sleep : ℕ), sleeps[k]? = some sleep →
      (clock (2 + k)).toNat + sleep ≤ (clock (3 + k)).toNat) →
    ∀ first, ps.head? = some first →
      ∃ p ∈ ps, (sleeps.sum : ℤ) ≤ tsNs nanoTs p - tsNs nanoTs first

/-- No packet is older than the first one by a distance which, together with the time since the
first packet was read, is between 2⁶³ and 2⁶⁴ nanoseconds. -/
def NoneTooOld (clock : ℕ → UInt64) (nanoTs : Bool) (ps : List PcapPacket) : Prop :=
  ∀ first k p, ps.head? = some first → ps[k]? = some p →
    let age := tsNs nanoTs first - tsNs nanoTs p
    let elapsed := ((clock (2 + k)).toNat : ℤ) - (clock 1).toNat
    ¬(0 < age ∧ 2 ^ 63 < age + elapsed ∧ age + elapsed < 2 ^ 64)

/-- In a replay that takes less than 2⁶² nanoseconds, which are 146 years, no packet is too old. -/
lemma noneTooOld_of_elapsed_lt {clock : ℕ → UInt64} (nanoTs : Bool) {ps : List PcapPacket}
    (h : ∀ k < ps.length, (clock (2 + k)).toNat < (clock 1).toNat + 2 ^ 62) :
    NoneTooOld clock nanoTs ps := by
  intro first k p _ hp
  have hfirst := tsNs_bounds nanoTs first
  have hbounds := tsNs_bounds nanoTs p
  have helapsed := h k (List.getElem?_eq_some_iff.mp hp).1
  dsimp only
  omega

/-- The wait before a packet, with the time stamps as integers. -/
lemma sleepNs_packet_iff (nanoTs : Bool) (first p : PcapPacket) {firstWall now : UInt64}
    (hwall : firstWall.toNat ≤ now.toNat) :
    let age := tsNs nanoTs first - tsNs nanoTs p
    let elapsed := (now.toNat : ℤ) - firstWall.toNat
    (sleepNs (pktTsNs nanoTs first.header) firstWall (pktTsNs nanoTs p.header) now : ℤ) =
        max 0 ((tsNs nanoTs p - tsNs nanoTs first) - elapsed) ↔
      ¬(0 < age ∧ 2 ^ 63 < age + elapsed ∧ age + elapsed < 2 ^ 64) := by
  have hfirst := tsNs_bounds nanoTs first
  have hp := tsNs_bounds nanoTs p
  rw [← toNat_pktTsNs] at hfirst hp
  dsimp only
  rw [← toNat_pktTsNs, ← toNat_pktTsNs, sleepNs_eq_iff (by omega) (by omega) hwall]
  omega

section Sum

variable {clock : ℕ → UInt64} {nanoTs : Bool} {first : PcapPacket} {ps : List PcapPacket}
  {sleeps : List ℕ}

/-- While the clock counts the waits, the waits so far are paid for by the time since the first
packet was read, and end no later than the capture. -/
lemma sum_take_le (hclock : Monotone fun i => (clock i).toNat)
    (hlength : sleeps.length = ps.length) (hfirst : first ∈ ps)
    (hsleeps : ∀ k p (sleep : ℕ), ps[k]? = some p → sleeps[k]? = some sleep →
      (sleep : ℤ) = max 0 ((tsNs nanoTs p - tsNs nanoTs first) -
        ((clock (2 + k)).toNat - (clock 1).toNat)))
    (hcounts : ∀ k (sleep : ℕ), sleeps[k]? = some sleep →
      (clock (2 + k)).toNat + sleep ≤ (clock (3 + k)).toNat) {n : ℕ} (hn : n ≤ sleeps.length) :
    (sleeps.take n).sum + (clock 1).toNat ≤ (clock (2 + n)).toNat ∧
      ∃ p ∈ ps, ((sleeps.take n).sum : ℤ) ≤ tsNs nanoTs p - tsNs nanoTs first := by
  induction n with
  | zero =>
    have hstart : (clock 1).toNat ≤ (clock (2 + 0)).toNat := hclock (by decide)
    exact ⟨by simpa using hstart, first, hfirst, by simp⟩
  | succ n ih =>
    obtain ⟨hpaid, p, hp, hends⟩ := ih (by omega)
    have hsleep : sleeps[n]? = some sleeps[n] := List.getElem?_eq_getElem hn
    have hpacket : ps[n]? = some ps[n] := List.getElem?_eq_getElem (by omega)
    have hcount := hcounts n sleeps[n] hsleep
    have hwait := hsleeps n ps[n] sleeps[n] hpacket hsleep
    rw [List.sum_take_succ _ _ hn, show 2 + (n + 1) = 3 + n by omega]
    refine ⟨by omega, ?_⟩
    by_cases hzero : sleeps[n] = 0
    · exact ⟨p, hp, by rwa [hzero, Nat.add_zero]⟩
    · -- a wait lasts until the time of its packet
      refine ⟨ps[n], List.getElem_mem _, ?_⟩
      rw [Nat.cast_add]
      omega

end Sum

/-- The waits that the replay makes are right exactly when no packet is too old. -/
lemma pacesRight_mapIdx_iff {clock : ℕ → UInt64} (hclock : Monotone fun i => (clock i).toNat)
    (nanoTs : Bool) (first : PcapPacket) (ps : List PcapPacket) :
    PacesRight clock nanoTs (first :: ps) ((first :: ps).mapIdx fun k p =>
        sleepNs (pktTsNs nanoTs first.header) (clock 1) (pktTsNs nanoTs p.header)
          (clock (2 + k))) ↔
      NoneTooOld clock nanoTs (first :: ps) := by
  have hwall (k : ℕ) : (clock 1).toNat ≤ (clock (2 + k)).toNat := hclock (by omega)
  constructor
  · intro h first' k p hfirst hp
    obtain rfl : first = first' := Option.some.inj hfirst
    refine (sleepNs_packet_iff nanoTs first p (hwall k)).mp (h.sleep_eq first k p _ rfl hp ?_)
    rw [List.getElem?_mapIdx, hp, Option.map_some]
  · intro h
    have hsleep : ∀ k p (sleep : ℕ), (first :: ps)[k]? = some p →
        ((first :: ps).mapIdx fun k p => sleepNs (pktTsNs nanoTs first.header) (clock 1)
          (pktTsNs nanoTs p.header) (clock (2 + k)))[k]? = some sleep →
        (sleep : ℤ) = max 0 ((tsNs nanoTs p - tsNs nanoTs first) -
          ((clock (2 + k)).toNat - (clock 1).toNat)) := by
      intro k p sleep hp hmade
      rw [List.getElem?_mapIdx, hp, Option.map_some, Option.some.injEq] at hmade
      rw [← hmade]
      exact (sleepNs_packet_iff nanoTs first p (hwall k)).mpr (h first k p rfl hp)
    refine ⟨List.length_mapIdx, ?_, ?_⟩
    · intro first' k p sleep hfirst hp hmade
      obtain rfl : first = first' := Option.some.inj hfirst
      exact hsleep k p sleep hp hmade
    · intro hcounts first' hfirst
      obtain rfl : first = first' := Option.some.inj hfirst
      have hall := (sum_take_le hclock List.length_mapIdx List.mem_cons_self hsleep hcounts
        le_rfl).2
      rwa [List.take_length] at hall

/-- The waits of a replay in real time are right exactly when no packet is too old. -/
lemma exists_replay_pacesRight_iff (replayer : PcapReplayer) (pktsReplayed : ℕ)
    {clock : ℕ → UInt64} (hclock : Monotone fun i => (clock i).toNat) (pktBuf : ℕ → UInt8)
    {file : List UInt8} {nanoTs swapEndian : Bool} {rest : List UInt8}
    (hopen : openFile file = some (nanoTs, swapEndian, rest)) :
    ∃ r, replay replayer .realtime pktsReplayed clock pktBuf file = some r ∧
      (PacesRight clock nanoTs (packets swapEndian rest) r.sleeps ↔
        NoneTooOld clock nanoTs (packets swapEndian rest)) := by
  refine ⟨_, by rw [replay, hopen], ?_⟩
  rw [loop_eq]
  change PacesRight clock nanoTs (packets swapEndian rest)
    ((packets swapEndian rest).foldl (deliver clock) _).sleeps ↔ _
  cases packets swapEndian rest with
  | nil =>
    refine iff_of_true ⟨rfl, ?_, ?_⟩ ?_
    · intro first k p sleep hfirst
      exact absurd hfirst (by simp)
    · intro _ first hfirst
      exact absurd hfirst (by simp)
    · intro first k p hfirst
      exact absurd hfirst (by simp)
  | cons first ps =>
    rw [sleeps_foldl]
    exact pacesRight_mapIdx_iff hclock nanoTs first ps

/-- **Real time.**  For every capture file with packets in any order and every clock that does not
go back, the waits of a replay in real time are right exactly when no packet is older than the first
one by a distance which, together with the elapsed time, is between 2⁶³ and 2⁶⁴ nanoseconds; so they
are right in every replay that takes less than 2⁶² nanoseconds. -/
theorem pacesRight_iff (replayer : PcapReplayer) (pktsReplayed : ℕ) {clock : ℕ → UInt64}
    (hclock : Monotone fun i => (clock i).toNat) (pktBuf : ℕ → UInt8) {file : List UInt8}
    {nanoTs swapEndian : Bool} {rest : List UInt8}
    (hopen : openFile file = some (nanoTs, swapEndian, rest)) :
    ∃ r, replay replayer .realtime pktsReplayed clock pktBuf file = some r ∧
      (PacesRight clock nanoTs (packets swapEndian rest) r.sleeps ↔
        NoneTooOld clock nanoTs (packets swapEndian rest)) ∧
      ((∀ k < (packets swapEndian rest).length,
          (clock (2 + k)).toNat < (clock 1).toNat + 2 ^ 62) →
        PacesRight clock nanoTs (packets swapEndian rest) r.sleeps) := by
  obtain ⟨r, hreplay, hiff⟩ :=
    exists_replay_pacesRight_iff replayer pktsReplayed hclock pktBuf hopen
  exact ⟨r, hreplay, hiff, fun helapsed => hiff.mpr (noneTooOld_of_elapsed_lt nanoTs helapsed)⟩

/-- A capture of two packets without payload; the second one is older by 2³² - 1 seconds. -/
def backwardsCapture : List UInt8 :=
  bytesU32 pcapMagicLe ++ List.replicate 20 0 ++
    (bytesU32 4294967295 ++ bytesU32 0 ++ bytesU32 0 ++ bytesU32 0) ++ List.replicate 16 0

/-- A clock that stands still until the first packet is delivered, and then goes on by `elapsed`
nanoseconds. -/
def stepClock (elapsed : UInt64) (i : ℕ) : UInt64 :=
  if i ≤ 2 then 0 else elapsed

lemma monotone_stepClock (elapsed : UInt64) : Monotone fun i => (stepClock elapsed i).toNat := by
  intro i j hij
  change (stepClock elapsed i).toNat ≤ (stepClock elapsed j).toNat
  unfold stepClock
  split_ifs
  · exact le_rfl
  · exact Nat.zero_le _
  · omega
  · exact le_rfl

/-- When the clock has gone on by a second, the older packet is not waited for. -/
theorem pacesRight_iff_backwardsCapture :
    ∃ r, replay .listening .realtime 0 (stepClock 1000000000) (fun _ => 0) backwardsCapture =
        some r ∧
      PacesRight (stepClock 1000000000) false (packets false (backwardsCapture.drop 24))
        r.sleeps := by
  obtain ⟨r, hreplay, -, hright⟩ := pacesRight_iff .listening 0 (monotone_stepClock 1000000000)
    (fun _ => 0)
    (show openFile backwardsCapture = some (false, false, backwardsCapture.drop 24) by decide)
  refine ⟨r, hreplay, hright fun k _ => ?_⟩
  unfold stepClock
  split_ifs <;> decide

/-- When the clock has gone on by 5 · 10¹⁸ nanoseconds, 158 years, the replay waits before the older
packet. -/
theorem not_pacesRight_backwards :
    ¬∀ (replayer : PcapReplayer) (pktsReplayed : ℕ) (clock : ℕ → UInt64),
      (Monotone fun i => (clock i).toNat) → ∀ (pktBuf : ℕ → UInt8) (file : List UInt8)
      (nanoTs swapEndian : Bool) (rest : List UInt8),
      openFile file = some (nanoTs, swapEndian, rest) →
        ∃ r, replay replayer .realtime pktsReplayed clock pktBuf file = some r ∧
          PacesRight clock nanoTs (packets swapEndian rest) r.sleeps := by
  intro hclaim
  obtain ⟨r, hreplay, hpaces⟩ := hclaim .listening 0 (stepClock 5000000000000000000)
    (monotone_stepClock _) (fun _ => 0) backwardsCapture false false (backwardsCapture.drop 24)
    (by decide)
  have hslept : (replay .listening .realtime 0 (stepClock 5000000000000000000) (fun _ => 0)
      backwardsCapture).map sleeps = some [0, 9151776778709551616] := by
    decide +kernel
  rw [hreplay, Option.map_some, Option.some.injEq] at hslept
  have hfirst : next false (backwardsCapture.drop 24) =
      .packet ⟨⟨4294967295, 0, 0, 0⟩, []⟩ (List.replicate 16 0) := rfl
  have hsecond : next false (List.replicate 16 0) = .packet ⟨⟨0, 0, 0, 0⟩, []⟩ [] := rfl
  rw [hslept, packets_of_packet hfirst, packets_of_packet hsecond] at hpaces
  exact absurd (hpaces.sleep_eq _ 1 _ _ rfl rfl rfl) (by decide)

end Replay

end QuantTrade
