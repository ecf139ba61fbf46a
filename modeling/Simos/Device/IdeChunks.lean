import Simos.Device.Ide

/-!
# The commands of one request (`device/ide.c`)

`ide_read` and `ide_write` cut a request into chunks of at most 256 sectors.
The bits 24 to 27 of a chunk's first sector are or-ed into the device
register, which is set only once for the whole request.

* `chunkAddress` is the address that the drive takes for a chunk;
* `transferred_iff` says for which requests all chunks have the address that
  was asked for;
* `diskSelectSector_eq` and `diskOkDown_returns` are what a round of the two
  loops does to the channel.
-/

namespace Simos

open Simos.Library

/-! ## Addresses -/

section Addresses

variable (lba : Nat)

/-- The low nibble of the device register after so many chunks. -/
def deviceNibble : Nat → Nat
  | 0 => 0
  | chunk + 1 => deviceNibble chunk ||| (lba + 256 * chunk) / 16777216

def chunkAddress (chunk : Nat) : Nat :=
  (lba + 256 * chunk) % 16777216 + 16777216 * deviceNibble lba (chunk + 1)

/-- The sector that the drive takes for the sector with this index in the
request. -/
def transferred (index : Nat) : Nat :=
  chunkAddress lba (index / 256) + index % 256

def chunkCommand (code device secCnt chunk : Nat) : AtaCommand :=
  ⟨code, device, chunkAddress lba chunk, sectorOnce secCnt (256 * chunk)⟩

def lastChunkStart (secCnt : Nat) : Nat :=
  lba + 256 * ((secCnt - 1) / 256)

/-- The chunks start within one block of 2^24 sectors, or in an even-numbered
block and the one behind it. -/
def StaysInBlocks (secCnt : Nat) : Prop :=
  lastChunkStart lba secCnt / 16777216 = lba / 16777216 ∨
    (lba / 16777216 % 2 = 0 ∧
      lastChunkStart lba secCnt / 16777216 = lba / 16777216 + 1)

variable {lba}

private theorem deviceNibble_lt {chunks : Nat}
    (bound : ∀ chunk, chunk < chunks → lba + 256 * chunk < 268435456) :
    deviceNibble lba chunks < 16 := by
  induction chunks with
  | zero =>
      exact Nat.zero_lt_succ 15
  | succ chunk inductionHypothesis =>
      have start := bound chunk (by omega)
      exact Nat.or_lt_two_pow (n := 4)
        (inductionHypothesis fun earlier inside => bound earlier (by omega))
        (by omega)

theorem deviceNibble_or (lba : Nat) {chunks chunk : Nat}
    (inside : chunk < chunks) :
    (lba + 256 * chunk) / 16777216 ||| deviceNibble lba chunks =
      deviceNibble lba chunks := by
  induction chunks with
  | zero =>
      exact absurd inside (Nat.not_lt_zero chunk)
  | succ last inductionHypothesis =>
      rw [deviceNibble]
      by_cases isLast : chunk = last
      · rw [isLast, Nat.or_comm (deviceNibble lba last), ← Nat.or_assoc,
          Nat.or_self]
      · rw [← Nat.or_assoc, inductionHypothesis (by omega)]

private theorem deviceNibble_of_same {chunks : Nat} (positive : 0 < chunks)
    (same : (lba + 256 * (chunks - 1)) / 16777216 = lba / 16777216) :
    deviceNibble lba chunks = lba / 16777216 := by
  induction chunks with
  | zero =>
      exact absurd positive (Nat.not_lt_zero 0)
  | succ chunk inductionHypothesis =>
      rw [deviceNibble]
      by_cases first : chunk = 0
      · subst first
        simp [deviceNibble]
      · rw [inductionHypothesis (by omega) (by omega),
          show (lba + 256 * chunk) / 16777216 = lba / 16777216 by omega,
          Nat.or_self]

theorem even_or_succ {block : Nat} (small : block < 16)
    (even : block % 2 = 0) : block ||| (block + 1) = block + 1 := by
  have table : ∀ tested, tested < 16 → tested % 2 = 0 →
      tested ||| (tested + 1) = tested + 1 := by decide
  exact table block small even

private theorem odd_of_or {left right : Nat} (leftSmall : left < 16)
    (rightSmall : right < 16) (inside : left ||| right = right)
    (odd : left % 2 = 1) : right % 2 = 1 := by
  have table : ∀ first, first < 16 → ∀ second, second < 16 →
      first ||| second = second → first % 2 = 1 → second % 2 = 1 := by decide
  exact table left leftSmall right rightSmall inside odd

/-- Over an even block and the one behind it nothing but the nibble of the
second one collects. -/
theorem deviceNibble_or_succ {chunks : Nat} (even : lba / 16777216 % 2 = 0)
    (small : lba / 16777216 < 16)
    (bound : ∀ chunk, chunk < chunks →
      (lba + 256 * chunk) / 16777216 ≤ lba / 16777216 + 1) :
    deviceNibble lba chunks ||| (lba / 16777216 + 1) =
      lba / 16777216 + 1 := by
  induction chunks with
  | zero =>
      exact Nat.zero_or _
  | succ chunk inductionHypothesis =>
      have earlier := inductionHypothesis fun tested inside =>
        bound tested (by omega)
      have here := bound chunk (by omega)
      rw [deviceNibble, Nat.or_assoc]
      rcases Nat.lt_or_ge (lba / 16777216) ((lba + 256 * chunk) / 16777216) with
        second | first
      · rw [show (lba + 256 * chunk) / 16777216 = lba / 16777216 + 1 by omega,
          Nat.or_self]
        exact earlier
      · rw [show (lba + 256 * chunk) / 16777216 = lba / 16777216 by omega,
          even_or_succ small even]
        exact earlier

/-- The register holds the nibble of the chunk that is being selected. -/
theorem deviceNibble_eq_iff {secCnt : Nat} (positive : 0 < secCnt)
    (range : lba + secCnt ≤ 268435456) :
    (∀ chunk, 256 * chunk < secCnt →
        deviceNibble lba (chunk + 1) = (lba + 256 * chunk) / 16777216) ↔
      StaysInBlocks lba secCnt := by
  have small : lba / 16777216 < 16 := by
    omega
  unfold StaysInBlocks lastChunkStart
  constructor
  · intro selected
    by_contra leaves
    rw [not_or, not_and_or] at leaves
    obtain ⟨crosses, odd⟩ := leaves
    -- the first chunk behind the boundary with the number `block`
    have crossing : ∀ block, lba / 16777216 < block →
        block ≤ (lba + 256 * ((secCnt - 1) / 256)) / 16777216 →
        ∃ chunk, 256 * chunk < secCnt ∧
          (lba + 256 * chunk) / 16777216 = block := by
      intro block above below
      exact ⟨(16777216 * block - lba + 255) / 256, by omega, by omega⟩
    have next := crossing (lba / 16777216 + 1) (by omega) (by omega)
    obtain ⟨chunk, inside, block⟩ := next
    rcases odd with firstOdd | tooFar
    · have first := deviceNibble_or lba
        (show 0 < chunk + 1 by omega)
      rw [selected chunk inside, block] at first
      have isOdd := odd_of_or (by omega) (by omega) first (by omega)
      omega
    · obtain ⟨later, laterInside, laterBlock⟩ :=
        crossing (lba / 16777216 + 2) (by omega) (by omega)
      have first := deviceNibble_or lba
        (show 0 < chunk + 1 by omega)
      have second := deviceNibble_or lba
        (show chunk < later + 1 by omega)
      rw [selected chunk inside, block] at first
      rw [selected later laterInside, block, laterBlock] at second
      rcases Nat.mod_two_eq_zero_or_one (lba / 16777216) with even | odd
      · have isOdd := odd_of_or (by omega) (by omega) second (by omega)
        omega
      · have isOdd := odd_of_or (by omega) (by omega) first (by omega)
        omega
  · intro stays chunk inside
    rcases stays with same | ⟨even, next⟩
    · rw [deviceNibble_of_same (by omega) (by
        rw [Nat.add_sub_cancel]
        omega)]
      omega
    · by_cases first : (lba + 256 * chunk) / 16777216 = lba / 16777216
      · rw [deviceNibble_of_same (by omega) (by
          rw [Nat.add_sub_cancel]
          exact first)]
        exact first.symm
      · rw [deviceNibble, show (lba + 256 * chunk) / 16777216 =
          lba / 16777216 + 1 by omega]
        apply deviceNibble_or_succ even small
        intro earlier before
        omega

/-- The drive takes every sector for the one that was asked for exactly when
the request stays in its blocks. -/
theorem transferred_iff {secCnt : Nat} (positive : 0 < secCnt)
    (range : lba + secCnt ≤ 268435456) :
    (∀ index, index < secCnt → transferred lba index = lba + index) ↔
      StaysInBlocks lba secCnt := by
  rw [← deviceNibble_eq_iff positive range]
  unfold transferred chunkAddress
  constructor
  · intro all chunk inside
    have first := all (256 * chunk) inside
    rw [show 256 * chunk / 256 = chunk by omega] at first
    omega
  · intro selected index inside
    have block := selected (index / 256) (by omega)
    rw [block]
    omega

end Addresses

/-! ## The steps of a round -/

section Rounds

variable {drive : AtaDrive} {s : IdeChannel} {ata : AtaChannel}

def deviceOf (devNo : Nat) : Nat :=
  if devNo = 1 then 1 else 0

theorem deviceOf_lt (devNo : Nat) : deviceOf devNo < 2 := by
  unfold deviceOf
  split <;> decide

/-- The device register for a disk, with the nibble of the address. -/
def deviceRegister (devNo nibble : Nat) : Nat :=
  0xe0 + 16 * deviceOf devNo + nibble

theorem diskSelectHd_eq (ata : AtaChannel) (devNo : Nat) :
    diskSelectHd ata devNo = { ata with dev := deviceRegister devNo 0 } := by
  unfold diskSelectHd deviceRegister deviceOf
  split <;> rfl

private theorem deviceRegister_or {devNo nibble block : Nat}
    (small : nibble < 16) (blockSmall : block < 16) :
    (deviceRegister devNo nibble ||| block) % 256 =
      deviceRegister devNo (nibble ||| block) := by
  have table : ∀ device, device < 2 → ∀ first, first < 16 → ∀ second,
      second < 16 → (0xe0 + 16 * device + first ||| second) % 256 =
        0xe0 + 16 * device + (first ||| second) := by decide
  exact table _ (deviceOf_lt devNo) nibble small block blockSmall

private def selected (ata : AtaChannel) (devNo lba secCnt chunk : Nat) :
    AtaChannel :=
  { ata with
    sectCnt := sectorOnce secCnt (256 * chunk) % 256
    lbaL := (lba + 256 * chunk) % 256
    lbaM := (lba + 256 * chunk) / 256 % 256
    lbaH := (lba + 256 * chunk) / 65536 % 256
    dev := deviceRegister devNo (deviceNibble lba (chunk + 1)) }

theorem diskSelectSector_eq {devNo lba secCnt chunk : Nat}
    (register : ata.dev = deviceRegister devNo (deviceNibble lba chunk))
    (inside : 256 * chunk < secCnt) (range : lba + secCnt ≤ 268435456) :
    diskSelectSector ata (u32 (lba + 256 * chunk))
        (sectorOnce secCnt (256 * chunk) % 256) =
      selected ata devNo lba secCnt chunk := by
  have small : deviceNibble lba chunk < 16 :=
    deviceNibble_lt fun earlier before => by omega
  unfold diskSelectSector selected
  rw [u32_of_lt (by omega)]
  simp only [register, Nat.shiftRight_eq_div_pow, Nat.pow_zero, Nat.div_one,
    Nat.mod_mod]
  rw [deviceRegister_or small (by omega)]
  rfl

private theorem selected_device (devNo lba secCnt chunk : Nat)
    (small : deviceNibble lba (chunk + 1) < 16) :
    (selected ata devNo lba secCnt chunk).device = deviceOf devNo := by
  have device := deviceOf_lt devNo
  simp only [AtaChannel.device, selected, deviceRegister]
  omega

private theorem selected_address (devNo lba secCnt chunk : Nat)
    (small : deviceNibble lba (chunk + 1) < 16) :
    (selected ata devNo lba secCnt chunk).address =
      chunkAddress lba chunk := by
  simp only [AtaChannel.address, selected, deviceRegister, chunkAddress]
  omega

private theorem selected_sectors (devNo lba : Nat) {secCnt chunk : Nat}
    (inside : 256 * chunk < secCnt) :
    (selected ata devNo lba secCnt chunk).sectors =
      sectorOnce secCnt (256 * chunk) := by
  have count : (selected ata devNo lba secCnt chunk).sectCnt =
      sectorOnce secCnt (256 * chunk) % 256 := rfl
  unfold AtaChannel.sectors
  rw [count]
  unfold sectorOnce
  split
  · rfl
  · rw [Nat.mod_eq_of_lt (by omega), if_neg (by omega)]

private def chunkTransfer (code device lba secCnt chunk : Nat) : AtaTransfer :=
  if code = 0x20 then
    .fromDisk device (chunkAddress lba chunk)
      (512 * sectorOnce secCnt (256 * chunk)) 0
  else if code = 0x30 then
    .toDisk device (chunkAddress lba chunk)
      (512 * sectorOnce secCnt (256 * chunk)) 0
  else
    .idle

def commanded (ata : AtaChannel) (code devNo lba secCnt chunk : Nat) :
    AtaChannel :=
  { selected ata devNo lba secCnt chunk with
    transfer := chunkTransfer code (deviceOf devNo) lba secCnt chunk
    commands := ata.commands ++
      [chunkCommand lba code (deviceOf devNo) secCnt chunk] }

private theorem selected_command {devNo lba secCnt chunk : Nat} (code : Nat)
    (inside : 256 * chunk < secCnt) (range : lba + secCnt ≤ 268435456) :
    (selected ata devNo lba secCnt chunk).command code =
      commanded ata code devNo lba secCnt chunk := by
  have small : deviceNibble lba (chunk + 1) < 16 :=
    deviceNibble_lt fun earlier before => by omega
  unfold AtaChannel.command AtaChannel.opened
  rw [selected_device _ _ _ _ small, selected_address _ _ _ _ small,
    selected_sectors _ _ inside]
  rfl

private theorem busyWaitLoop_ata (drive : AtaDrive) (rounds : Nat)
    (ata : AtaChannel) :
    ∃ reads, (busyWaitLoop drive rounds ata).2 =
      { ata with statusReads := reads } := by
  induction rounds generalizing ata with
  | zero =>
      exact ⟨ata.statusReads, rfl⟩
  | succ rounds inductionHypothesis =>
      by_cases idle : drive.status ata &&& bitAltStatusBsy = 0
      · simp only [busyWaitLoop, if_pos idle]
        exact ⟨_, rfl⟩
      · simp only [busyWaitLoop, if_neg idle]
        exact inductionHypothesis ata.statusRead

/-- The interrupt wakes the driver that waits for it. -/
theorem diskOkDown_returns (cur : Nat)
    (line : s.irqNo = 0x2e ∨ s.irqNo = 0x2f)
    (waiting : s.waitIntr = true) (taken : s.diskOk = ⟨0, []⟩) :
    diskOkDown s cur =
      .ok { s with waitIntr := false, ata := s.ata.statusRead } := by
  obtain ⟨irqNo, lock, waitIntr, diskOk, ata, memory⟩ := s
  simp only at line waiting taken
  subst waiting taken
  simp only [diskOkDown, hardDiskService, Call.assert_of line, if_true,
    Call.ok_bind, semaUp_taken, Call.pure_eq_ok, List.tail_nil]
  rfl

theorem busyWait_ata (drive : AtaDrive) (ata : AtaChannel) :
    ∃ reads, (busyWait drive ata).2 = { ata with statusReads := reads } :=
  busyWaitLoop_ata drive _ ata

theorem sectorToBytes_once {secCnt chunk : Nat}
    (inside : 256 * chunk < secCnt) :
    2 * (sectorToBytes (sectorOnce secCnt (256 * chunk) % 256) / 2) =
      512 * sectorOnce secCnt (256 * chunk) := by
  unfold sectorToBytes sectorOnce
  split
  · rfl
  · rw [if_neg (by omega)]
    omega

end Rounds

/-! ## The loop -/

structure IdeIdle (s : IdeChannel) : Prop where
  line : s.irqNo = 0x2e ∨ s.irqNo = 0x2f
  lock : s.lock = lockInit
  diskOk : s.diskOk = ⟨0, []⟩

structure IdeProgress (code devNo lba secCnt : Nat) (first : IdeChannel)
    (chunk : Nat) (s : IdeChannel) : Prop where
  irqNo : s.irqNo = first.irqNo
  lock : s.lock = first.lock
  diskOk : s.diskOk = ⟨0, []⟩
  register : s.ata.dev = deviceRegister devNo (deviceNibble lba chunk)
  disks : s.ata.disks = first.ata.disks
  commands : s.ata.commands = first.ata.commands ++
    (List.range chunk).map (chunkCommand lba code (deviceOf devNo) secCnt)

namespace IdeProgress

variable {code devNo lba secCnt chunk : Nat} {first s s' : IdeChannel}

private theorem start (code devNo lba secCnt : Nat)
    (diskOk : first.diskOk = ⟨0, []⟩)
    (register : first.ata.dev = deviceRegister devNo 0) :
    IdeProgress code devNo lba secCnt first 0 first where
  irqNo := rfl
  lock := rfl
  diskOk := diskOk
  register := register
  disks := rfl
  commands := by simp

theorem sent (progress : IdeProgress code devNo lba secCnt first chunk s)
    (inside : 256 * chunk < secCnt) (range : lba + secCnt ≤ 268435456) :
    channelControlCmd
        { s with
          ata := diskSelectSector s.ata (u32 (lba + 256 * chunk))
            (sectorOnce secCnt (256 * chunk) % 256) } code =
      { s with
        waitIntr := true
        ata := commanded s.ata code devNo lba secCnt chunk } := by
  rw [diskSelectSector_eq progress.register inside range]
  unfold channelControlCmd
  rw [← selected_command code inside range]

/-- A round that leaves the registers and the disks as they are after its
command moves on to the next chunk. -/
theorem next (progress : IdeProgress code devNo lba secCnt first chunk s)
    (irqNo : s'.irqNo = s.irqNo) (lock : s'.lock = s.lock)
    (diskOk : s'.diskOk = ⟨0, []⟩)
    (register : s'.ata.dev =
      (commanded s.ata code devNo lba secCnt chunk).dev)
    (disks : s'.ata.disks = s.ata.disks)
    (commands : s'.ata.commands =
      (commanded s.ata code devNo lba secCnt chunk).commands) :
    IdeProgress code devNo lba secCnt first (chunk + 1) s' where
  irqNo := irqNo.trans progress.irqNo
  lock := lock.trans progress.lock
  diskOk := diskOk
  register := register
  disks := disks.trans progress.disks
  commands := by
    rw [commands, List.range_succ, List.map_append, ← List.append_assoc,
      ← progress.commands]
    rfl

end IdeProgress

def chunkCount (secCnt : Nat) : Nat :=
  (secCnt + 255) / 256

private theorem sectorOnce_le (secCnt sectorDone : Nat) :
    sectorOnce secCnt sectorDone ≤ 256 := by
  unfold sectorOnce
  split <;> omega

theorem sectorOnce_add {secCnt chunk : Nat}
    (inside : 256 * chunk < secCnt) :
    256 * chunk + sectorOnce secCnt (256 * chunk) =
      min (256 * (chunk + 1)) secCnt := by
  unfold sectorOnce
  split <;> omega

/-- The commands of a request cover the sectors that it moves, in order. -/
theorem chunkCommands_covered (lba code device secCnt : Nat) :
    ((List.range (chunkCount secCnt)).map
        (chunkCommand lba code device secCnt)).flatMap AtaCommand.covered =
      (List.range secCnt).map fun index => (device, transferred lba index) := by
  have covered : ∀ chunks, chunks ≤ chunkCount secCnt →
      ((List.range chunks).map
          (chunkCommand lba code device secCnt)).flatMap AtaCommand.covered =
        (List.range (min (256 * chunks) secCnt)).map fun index =>
          (device, transferred lba index) := by
    intro chunks
    induction chunks with
    | zero =>
        intro _
        simp
    | succ chunk inductionHypothesis =>
        intro inside
        have before : 256 * chunk < secCnt := by
          unfold chunkCount at inside
          omega
        rw [List.range_succ, List.map_append, List.flatMap_append,
          inductionHypothesis (by omega), Nat.min_eq_left (by omega),
          ← sectorOnce_add before, List.range_add, List.map_append,
          List.map_map]
        congr 1
        simp only [List.map_cons, List.map_nil, List.flatMap_cons,
          List.flatMap_nil, List.append_nil, AtaCommand.covered, chunkCommand]
        refine List.map_congr_left ?_
        intro index member
        have small := List.mem_range.mp member
        have once := sectorOnce_le secCnt (256 * chunk)
        simp only [Function.comp_apply, Prod.mk.injEq, true_and]
        unfold transferred
        rw [show (256 * chunk + index) / 256 = chunk by omega,
          show (256 * chunk + index) % 256 = index by omega]
  have all := covered (chunkCount secCnt) (Nat.le_refl _)
  rwa [show min (256 * chunkCount secCnt) secCnt = secCnt by
    unfold chunkCount
    omega] at all

/-- The loop returns when every round does, and what the rounds keep holds
after the last chunk. -/
theorem ideLoop_returns {round : Nat → IdeChannel → Call IdeChannel}
    {holds : Nat → IdeChannel → Prop} {secCnt : Nat}
    (bound : secCnt < 4294967296)
    (step : ∀ chunk s, 256 * chunk < secCnt → holds chunk s →
      ∃ s', round (256 * chunk) s = .ok s' ∧ holds (chunk + 1) s') :
    ∀ rounds chunk s, secCnt ≤ 256 * chunk + rounds →
      chunk ≤ chunkCount secCnt → holds chunk s →
      ∃ s', ideLoop round secCnt rounds (min (256 * chunk) secCnt) s = .ok s' ∧
        holds (chunkCount secCnt) s' := by
  intro rounds
  induction rounds with
  | zero =>
      intro chunk s enough inside held
      have last : chunk = chunkCount secCnt := by
        unfold chunkCount at *
        omega
      refine ⟨s, ?_, last ▸ held⟩
      unfold ideLoop
      rw [if_neg (by omega)]
      rfl
  | succ rounds inductionHypothesis =>
      intro chunk s enough inside held
      unfold ideLoop
      by_cases done : secCnt ≤ 256 * chunk
      · have last : chunk = chunkCount secCnt := by
          unfold chunkCount at *
          omega
        rw [if_neg (by omega)]
        exact ⟨s, rfl, last ▸ held⟩
      · rw [Nat.min_eq_left (by omega), if_pos (by omega)]
        obtain ⟨next, returned, kept⟩ := step chunk s (by omega) held
        have moved : u32 (256 * chunk + sectorOnce secCnt (256 * chunk)) =
            min (256 * (chunk + 1)) secCnt := by
          unfold sectorOnce
          rw [u32_of_lt (by split <;> omega)]
          split <;> omega
        simp only [returned, Call.ok_bind, moved]
        refine inductionHypothesis (chunk + 1) next (by omega) ?_ kept
        unfold chunkCount
        omega

/-! ## The frame of a request -/

def lockedRounds (round : Nat → IdeChannel → Call IdeChannel)
    (devNo secCnt cur : Nat) (s : IdeChannel) : Call IdeChannel := do
  Call.assert (secCnt > 0)
  let lock ← lockAcquireAlone s.lock cur
  let s := { s with lock, ata := diskSelectHd s.ata devNo }
  let s ← ideLoop round secCnt secCnt 0 s
  let lock ← lockReleaseAlone s.lock cur
  return { s with lock }

def lockedChannel (devNo cur : Nat) (s : IdeChannel) : IdeChannel :=
  { s with lock := ⟨cur, ⟨0, []⟩, 1⟩, ata := diskSelectHd s.ata devNo }

theorem IdeIdle.progress {s : IdeChannel} (idle : IdeIdle s)
    (code devNo lba secCnt cur : Nat) :
    IdeProgress code devNo lba secCnt (lockedChannel devNo cur s) 0
      (lockedChannel devNo cur s) := by
  have diskOk : (lockedChannel devNo cur s).diskOk = ⟨0, []⟩ := idle.diskOk
  apply IdeProgress.start _ _ _ _ diskOk
  simp only [lockedChannel, diskSelectHd_eq]

theorem lockedRounds_returns
    {round : Nat → IdeChannel → Call IdeChannel}
    {holds : Nat → IdeChannel → Prop} {code devNo lba secCnt cur : Nat}
    {s : IdeChannel} (idle : IdeIdle s) (task : cur ≠ 0)
    (positive : 0 < secCnt) (bound : secCnt < 4294967296)
    (start : holds 0 (lockedChannel devNo cur s))
    (step : ∀ chunk s', 256 * chunk < secCnt → holds chunk s' →
      ∃ next, round (256 * chunk) s' = .ok next ∧ holds (chunk + 1) next)
    (progress : ∀ chunk s', holds chunk s' →
      IdeProgress code devNo lba secCnt (lockedChannel devNo cur s) chunk s') :
    ∃ last, lockedRounds round devNo secCnt cur s =
        .ok { last with lock := lockInit } ∧
      IdeIdle { last with lock := lockInit } ∧
      holds (chunkCount secCnt) last := by
  obtain ⟨last, looped, held⟩ := ideLoop_returns bound step secCnt 0 _
    (by omega) (Nat.zero_le _) start
  have ended := progress _ last held
  have released : lockReleaseAlone last.lock cur = .ok lockInit := by
    rw [ended.lock]
    exact lockReleaseAlone_taken
  simp only [Nat.mul_zero, Nat.zero_min, lockedChannel] at looped
  refine ⟨last, ?_, ⟨?_, rfl, ended.diskOk⟩, held⟩
  · simp only [lockedRounds, Call.assert_of positive, Call.ok_bind, idle.lock,
      lockAcquireAlone_lockInit task]
    rw [looped]
    simp only [Call.ok_bind, released]
    rfl
  · have line := idle.line
    rwa [show s.irqNo = last.irqNo from ended.irqNo.symm] at line

end Simos
