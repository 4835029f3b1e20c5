import BatchMachine.Proofs.TransferTiming

/-!
# Transfers that fall due together

The devices tick one after the other, and all signal on the one trap line of the processor. The
first that is due takes the line if it is free, and the others find it busy and hold what they have.
When the line is cleared they get their turns, one in each round, in the order of their numbers.

* `Hardware.dueDevices`: the devices that would make their transfers if the line stayed free.
* `Hardware.transfers`: the devices that do when all devices tick.
* `Hardware.Passed`: the hardware when some of the devices have ticked.
* `Hardware.tickDevices_serialised`: one transfer at a time, and none is lost.
-/

namespace BatchMachine

open JobText

namespace Device

variable {d : Device}

/-- `d` has no countdown running and no request to take. -/
def isAtRest (d : Device) : Bool :=
  d.timer == 0 && d.trap.trap? != some d.request

theorem isAtRest_iff : d.isAtRest = true ↔ d.timer = 0 ∧ d.trap.trap? ≠ some d.request := by
  simp [isAtRest]

/-- If `d` is at rest it stays as it is. -/
theorem bide_of_isAtRest (h : d.isAtRest = true) : d.bide = d :=
  bide_of_timer_eq_zero (isAtRest_iff.1 h).2 (isAtRest_iff.1 h).1

theorem isDue_of_isAtRest (h : d.isAtRest = true) : d.isDue = false := by
  simp [isDue, (isAtRest_iff.1 h).1]

/-- The line on which `d` has signalled is busy. -/
theorem isIdle_signal (d : Device) (ok : Bool) : (d.signal ok).isIdle = false := by
  unfold signal completion
  cases d.isInput <;> rfl

/-- A transfer leaves `d` at rest. -/
theorem isAtRest_transfer (source? : Option Reader) (files : Files) (h : d.isDue = true) :
    (d.transfer source? files).device.isAtRest = true := by
  obtain ⟨-, hrequest⟩ := isDue_iff.1 h
  obtain ⟨hzero, -, htrap, hlink⟩ := d.device_transfer source? files
  have hsame : (d.transfer source? files).device.trap.trap? = d.trap.trap? := by
    rw [TrapLine.trap?, htrap, TrapLine.trap?]
  rw [isAtRest_iff, hsame, request, hlink.isInput_eq]
  exact ⟨hzero, hrequest⟩

end Device

namespace Hardware

variable {hw hw₁ hw₂ : Hardware} {dev e n k : Nat} {d : Device} {t : Device.Tick}

/-! ## One device after the other -/

/-- The hardware when the devices with the numbers `1` to `n` have ticked, in the order of their
numbers. -/
def tickFirst (hw : Hardware) (n : Nat) : Hardware :=
  Nat.fold n (fun i _ hw => hw.tickDevice (i + 1)) hw

theorem tickFirst_succ (hw : Hardware) (n : Nat) :
    hw.tickFirst (n + 1) = (hw.tickFirst n).tickDevice (n + 1) := by
  rw [tickFirst, Nat.fold_succ, ← tickFirst]

theorem tickDevices_eq_tickFirst (hw : Hardware) :
    hw.tickDevices = hw.tickFirst hw.devices.size := rfl

/-- The device with the number `dev` is due. -/
def isDueAt (hw : Hardware) (dev : Nat) : Bool :=
  (hw.device? dev).any Device.isDue

/-- The devices with the numbers `1` to `n` that are due, in ascending order. -/
def dueUpTo (hw : Hardware) (n : Nat) : List Nat :=
  (List.range' 1 n).filter hw.isDueAt

/-- The devices of `hw` that are due, in ascending order. -/
def dueDevices (hw : Hardware) : List Nat :=
  hw.dueUpTo hw.devices.size

/-- The devices with the numbers `1` to `n` that make their transfers when the devices tick one
after the other. -/
def transfersUpTo (hw : Hardware) (n : Nat) : List Nat :=
  (List.range' 1 n).filter fun dev => (hw.tickFirst (dev - 1)).isTransfer dev

/-- The devices of `hw` that make their transfers when all devices tick. -/
def transfers (hw : Hardware) : List Nat :=
  hw.transfersUpTo hw.devices.size

theorem dueUpTo_succ (hw : Hardware) (n : Nat) :
    hw.dueUpTo (n + 1) = hw.dueUpTo n ++ [n + 1].filter hw.isDueAt := by
  rw [dueUpTo, List.range'_1_concat, List.filter_append, Nat.add_comm 1 n, ← dueUpTo]

theorem transfersUpTo_succ (hw : Hardware) (n : Nat) :
    hw.transfersUpTo (n + 1) =
      hw.transfersUpTo n ++ if (hw.tickFirst n).isTransfer (n + 1) then [n + 1] else [] := by
  rw [transfersUpTo, List.range'_1_concat, List.filter_append, Nat.add_comm 1 n, ← transfersUpTo,
    List.filter_cons, List.filter_nil, Nat.add_sub_cancel]

theorem pairwise_dueUpTo (hw : Hardware) (n : Nat) : (hw.dueUpTo n).Pairwise (· < ·) :=
  (List.pairwise_lt_range' ..).filter _

theorem le_of_mem_dueUpTo (h : dev ∈ hw.dueUpTo n) : dev ≤ n := by
  have hrange := (List.mem_filter.1 h).1
  rw [List.mem_range'_1] at hrange
  omega

theorem le_size_of_device? (h : hw.device? dev = some d) : dev ≤ hw.devices.size := by
  unfold device? at h
  split at h
  · omega
  · have hlt := (Array.getElem?_eq_some_iff.1 h).1
    omega

/-- `hw.dueDevices` has just the numbers of the devices that are due. -/
theorem mem_dueDevices : dev ∈ hw.dueDevices ↔ ∃ d, hw.device? dev = some d ∧ d.isDue = true := by
  rw [dueDevices, dueUpTo, List.mem_filter, isDueAt, Option.any_eq_true, List.mem_range'_1]
  refine ⟨And.right, fun h => ⟨?_, h⟩⟩
  -- a device that there is has a number in the range that is searched
  obtain ⟨d, hd, -⟩ := h
  have hpos := ne_zero_of_device? hd
  have hle := le_size_of_device? hd
  omega

theorem isTransfer_eq (hw : Hardware) (dev : Nat) :
    hw.isTransfer dev = (hw.isDueAt dev && hw.cpu.trap.isIdle) := by
  cases hd : hw.device? dev with
  | none => simp [isTransfer, isDueAt, hd]
  | some d =>
    rw [Bool.eq_iff_iff, isTransfer_iff hd, isDueAt, hd, Option.any_some, Bool.and_eq_true]

/-! ## What a device sees of the others -/

/-- `hw` and `hw'` differ in nothing but their devices. -/
structure SameBeside (hw hw' : Hardware) : Prop where
  cpu : hw'.cpu = hw.cpu
  sources : hw'.sources = hw.sources
  files : hw'.files = hw.files

namespace SameBeside

theorem refl (hw : Hardware) : hw.SameBeside hw := ⟨rfl, rfl, rfl⟩

theorem trans (h : hw.SameBeside hw₁) (h' : hw₁.SameBeside hw₂) : hw.SameBeside hw₂ :=
  ⟨h'.cpu.trans h.cpu, h'.sources.trans h.sources, h'.files.trans h.files⟩

theorem source? (h : hw.SameBeside hw₁) (job : Nat) : hw₁.source? job = hw.source? job := by
  rw [Hardware.source?, h.sources, Hardware.source?]

theorem sourceOf? (h : hw.SameBeside hw₁) (d : Device) : hw₁.sourceOf? d = hw.sourceOf? d := by
  rw [Hardware.sourceOf?, funext h.source?, Hardware.sourceOf?]

theorem update (h : hw.SameBeside hw₁) (dev : Nat) (t : Device.Tick) :
    (hw.update dev t).SameBeside (hw₁.update dev t) := by
  obtain ⟨hcpu, hsources, hfiles⟩ := h
  unfold Hardware.update setDevice setTrap setSource
  cases t.device.job? with
  | none => exact ⟨by simp only [hcpu], hsources, rfl⟩
  | some job => exact ⟨by simp only [hcpu], by simp only [hsources], rfl⟩

end SameBeside

/-- What the transfer of `d` comes to does not depend on the other devices. -/
theorem Completes.of_sameBeside {hw' hw'' : Hardware} {d' : Device} {word : Word}
    (h : hw.Completes hw' d d' word) (hsame : hw'.SameBeside hw'') :
    hw.Completes hw'' d d' word := by
  cases h with
  | read hlink hsource hfetch hcpu hheld hafter hfiles =>
    exact .read hlink hsource hfetch (hsame.cpu.trans hcpu) hheld ((hsame.source? _).trans hafter)
      (hsame.files.trans hfiles)
  | starved hlink hnone hcpu hfiles =>
    exact .starved hlink hnone (hsame.cpu.trans hcpu) (hsame.files.trans hfiles)
  | written hlink htransfer hfiles hcpu =>
    exact .written hlink (hsame.files ▸ htransfer) (hsame.files.trans hfiles)
      (hsame.cpu.trans hcpu)
  | refused hlink hnone hcpu => exact .refused hlink hnone (hsame.cpu.trans hcpu)

theorem completes_transfer (hw : Hardware) (dev : Nat) (d : Device) :
    ∃ word, hw.Completes (hw.update dev (d.transfer (hw.sourceOf? d) hw.files)) d
      (d.transfer (hw.sourceOf? d) hw.files).device word := by
  cases hlink : d.link with
  | input job? => exact ⟨0, completes_input 0 hlink⟩
  | output word sink? => exact ⟨word, completes_output hlink⟩

/-- If the device with the number `dev` makes no transfer it bides its time, and nothing else
changes. -/
theorem tickDevice_bides (h : hw.isTransfer dev = false) :
    hw.SameBeside (hw.tickDevice dev) ∧ ∀ e, (hw.tickDevice dev).device? e =
      if e = dev then (hw.device? e).map Device.bide else hw.device? e := by
  cases hd : hw.device? dev with
  | none =>
    have htick : hw.tickDevice dev = hw := by simp only [tickDevice, hd]
    rw [htick]
    refine ⟨.refl hw, fun e => ?_⟩
    split
    · rename_i he
      rw [he, hd]
      rfl
    · rfl
  | some d =>
    have hphase : d.phase hw.cpu.trap.isIdle ≠ .transfer := by
      simpa [isTransfer, hd] using h
    rw [tickDevice_of_not_transfer hd hphase]
    refine ⟨⟨rfl, rfl, rfl⟩, fun e => ?_⟩
    rw [Machine.device?_setDevice hw (ne_zero_of_device? hd)]
    split
    · rename_i he
      rw [he, hd]
      rfl
    · rfl

/-- The transfer of the device `dev` leaves any other device `e` alone. -/
theorem device?_update_of_ne (hdev : dev ≠ 0) (he : e ≠ dev) :
    (hw.update dev t).device? e = hw.device? e := by
  rw [device?_update, Machine.device?_setDevice hw hdev, if_neg he]

/-! ## One pass over the devices -/

/-- What has happened when the devices up to number `n` have ticked. -/
inductive Passed (hw : Hardware) (n : Nat) : Prop
  /-- All of them have bided their time, for the line is busy or none of them is due. -/
  | bided (hcause : hw.cpu.trap.isIdle = true → hw.dueUpTo n = [])
      (hnone : hw.transfersUpTo n = []) (hbeside : hw.SameBeside (hw.tickFirst n))
      (hdevices : ∀ e, (hw.tickFirst n).device? e =
        if e ≤ n then (hw.device? e).map Device.bide else hw.device? e)
  /-- The first that is due, `dev`, has made its transfer, and all others have bided their time. -/
  | served {dev : Nat} {rest : List Nat} {d : Device} (hfree : hw.cpu.trap.isIdle = true)
      (hdue : hw.dueUpTo n = dev :: rest) (hd : hw.device? dev = some d)
      (hone : hw.transfersUpTo n = [dev])
      (hbeside : (hw.update dev (d.transfer (hw.sourceOf? d) hw.files)).SameBeside
        (hw.tickFirst n))
      (hserved : (hw.tickFirst n).device? dev =
        some (d.transfer (hw.sourceOf? d) hw.files).device)
      (hothers : ∀ e, e ≠ dev → (hw.tickFirst n).device? e =
        if e ≤ n then (hw.device? e).map Device.bide else hw.device? e)

/-- If the device with the number `n + 1` makes no transfer, one more device bides its time. -/
theorem device?_bides (h : (hw.tickFirst n).isTransfer (n + 1) = false)
    (hbefore : (hw.tickFirst n).device? e =
      if e ≤ n then (hw.device? e).map Device.bide else hw.device? e) :
    (hw.tickFirst (n + 1)).device? e =
      if e ≤ n + 1 then (hw.device? e).map Device.bide else hw.device? e := by
  rw [tickFirst_succ, (tickDevice_bides h).2 e, hbefore]
  -- it has ticked before, it ticks now, or it has not yet ticked
  rcases Nat.lt_trichotomy e (n + 1) with hlt | rfl | hgt
  · rw [if_neg (by omega), if_pos (by omega), if_pos (by omega)]
  · rw [if_pos rfl, if_neg (by omega), if_pos (by omega)]
  · rw [if_neg (by omega), if_neg (by omega), if_neg (by omega)]

/-- As long as all have bided their time, the device with the number `n + 1` finds everything as it
was. -/
theorem tickFirst_succ_of_transfer (hbeside : hw.SameBeside (hw.tickFirst n))
    (hd : (hw.tickFirst n).device? (n + 1) = some d)
    (h : (hw.tickFirst n).isTransfer (n + 1) = true) :
    hw.tickFirst (n + 1) =
      (hw.tickFirst n).update (n + 1) (d.transfer (hw.sourceOf? d) hw.files) := by
  have hphase : d.phase (hw.tickFirst n).cpu.trap.isIdle = .transfer := by
    simpa [isTransfer, hd] using h
  rw [tickFirst_succ, tickDevice_of_transfer hd hphase, hbeside.sourceOf?, hbeside.files]

/-- The tick of the device with the number `n + 1`. -/
theorem Passed.succ (h : hw.Passed n) : hw.Passed (n + 1) := by
  cases h with
  | bided hcause hnone hbeside hdevices =>
    have hnext : (hw.tickFirst n).device? (n + 1) = hw.device? (n + 1) := by
      rw [hdevices, if_neg (by omega)]
    have hmakes : (hw.tickFirst n).isTransfer (n + 1) =
        (hw.isDueAt (n + 1) && hw.cpu.trap.isIdle) := by
      rw [isTransfer_eq, hbeside.cpu, isDueAt, hnext, isDueAt]
    cases hnow : (hw.tickFirst n).isTransfer (n + 1) with
    | true =>
      -- this device is the first that is due, and the line is free
      obtain ⟨hdue, hfree⟩ : hw.isDueAt (n + 1) = true ∧ hw.cpu.trap.isIdle = true := by
        rwa [hmakes, Bool.and_eq_true] at hnow
      obtain ⟨d, hd, -⟩ := (Option.any_eq_true ..).1 hdue
      have htick := tickFirst_succ_of_transfer hbeside (hnext.trans hd) hnow
      have hfirst : hw.dueUpTo (n + 1) = [n + 1] := by
        rw [dueUpTo_succ, hcause hfree, List.filter_cons_of_pos hdue]
        rfl
      refine .served hfree hfirst hd ?_ ?_ ?_ fun e he => ?_
      · rw [transfersUpTo_succ, hnone, hnow]
        rfl
      · rw [htick]
        exact hbeside.update _ _
      · rw [htick, device?_update]
        exact device?_setDevice_self (hnext.trans hd)
      · rw [htick, device?_update_of_ne (by omega) he, hdevices]
        split <;> split <;> first | rfl | omega
    | false =>
      refine .bided (fun hfree => ?_) ?_ ?_ fun e => device?_bides hnow (hdevices e)
      · have hdue : hw.isDueAt (n + 1) = false := by
          rwa [hmakes, hfree, Bool.and_true] at hnow
        rw [dueUpTo_succ, hcause hfree, List.filter_cons_of_neg (by simp [hdue])]
        rfl
      · rw [transfersUpTo_succ, hnone, hnow]
        rfl
      · rw [tickFirst_succ]
        exact hbeside.trans (tickDevice_bides hnow).1
  | served hfree hdue hd hone hbeside hserved hothers =>
    have hle := le_of_mem_dueUpTo (hdue ▸ List.mem_cons_self)
    -- the line carries the signal of the one that has made its transfer
    have hbusy : (hw.tickFirst n).cpu.trap.isIdle = false := by
      rw [hbeside.cpu, cpu_update, Device.line_transfer]
      exact Device.isIdle_signal ..
    have hnow : (hw.tickFirst n).isTransfer (n + 1) = false := by
      rw [isTransfer_eq, hbusy, Bool.and_false]
    have hfirst := congrArg (· ++ [n + 1].filter hw.isDueAt) hdue
    rw [← dueUpTo_succ] at hfirst
    refine .served hfree hfirst hd ?_ ?_ ?_ fun e he => device?_bides hnow (hothers e he)
    · rw [transfersUpTo_succ, hone, hnow]
      rfl
    · rw [tickFirst_succ]
      exact hbeside.trans (tickDevice_bides hnow).1
    · rw [tickFirst_succ, (tickDevice_bides hnow).2, if_neg (by omega)]
      exact hserved

theorem passed (hw : Hardware) (n : Nat) : hw.Passed n := by
  -- the induction follows the pass, device by device
  induction n with
  | zero =>
    refine .bided (fun _ => rfl) rfl (.refl hw) fun e => ?_
    by_cases he : e ≤ 0
    · -- there is no device of number zero
      obtain rfl : e = 0 := by omega
      rfl
    · rw [if_neg he]
      rfl
  | succ n ih => exact ih.succ

/-- If the device `e` makes no transfer it bides its time. -/
theorem device?_tickDevices (he : e ∉ hw.transfers) :
    hw.tickDevices.device? e = (hw.device? e).map Device.bide := by
  have hbided : (if e ≤ hw.devices.size then (hw.device? e).map Device.bide else hw.device? e) =
      (hw.device? e).map Device.bide := by
    split
    · rfl
    · rename_i hgt
      cases hd : hw.device? e with
      | none => rfl
      | some d => exact absurd (le_size_of_device? hd) hgt
  rw [tickDevices_eq_tickFirst, ← hbided]
  cases hw.passed hw.devices.size with
  | bided hcause hnone hbeside hdevices => exact hdevices e
  | served hfree hdue hd hone hbeside hserved hothers =>
    rw [transfers, hone] at he
    exact hothers e fun heq => he (heq ▸ List.mem_singleton_self _)

/-- The first device of `hw` that is due makes its transfer if the line is free. -/
theorem transfers_eq (hw : Hardware) :
    hw.transfers = if hw.cpu.trap.isIdle then hw.dueDevices.head?.toList else [] := by
  cases hw.passed hw.devices.size with
  | bided hcause hnone hbeside hdevices =>
    rw [transfers, hnone]
    split
    · rename_i hfree
      rw [dueDevices, hcause hfree]
      rfl
    · rfl
  | served hfree hdue hd hone hbeside hserved hothers =>
    rw [transfers, hone, if_pos hfree, dueDevices, hdue]
    rfl

theorem sameBeside_tickDevices (h : hw.transfers = []) : hw.SameBeside hw.tickDevices := by
  rw [tickDevices_eq_tickFirst]
  cases hw.passed hw.devices.size with
  | bided hcause hnone hbeside hdevices => exact hbeside
  | served hfree hdue hd hone hbeside hserved hothers =>
    rw [transfers, hone] at h
    exact absurd h (List.cons_ne_nil _ _)

theorem completes_tickDevices (h : hw.transfers = [dev]) :
    ∃ d d' word, hw.device? dev = some d ∧ d.isDue = true ∧
      hw.tickDevices.device? dev = some d' ∧ d'.isAtRest = true ∧
      hw.Completes hw.tickDevices d d' word := by
  rw [tickDevices_eq_tickFirst]
  cases hw.passed hw.devices.size with
  | bided hcause hnone hbeside hdevices =>
    rw [transfers, hnone] at h
    exact absurd h.symm (List.cons_ne_nil _ _)
  | served hfree hdue hd hone hbeside hserved hothers =>
    obtain rfl : dev = _ := List.singleton_inj.1 (h.symm.trans hone)
    obtain ⟨d, hfound, hdued⟩ := mem_dueDevices.1 (hdue ▸ List.mem_cons_self : _ ∈ hw.dueDevices)
    obtain rfl := Option.some.inj (hfound.symm.trans hd)
    obtain ⟨word, hcompletes⟩ := completes_transfer hw dev d
    exact ⟨d, _, word, hd, hdued, hserved, Device.isAtRest_transfer _ _ hdued,
      hcompletes.of_sameBeside hbeside⟩

/-! ## Round after round -/

/-- A round: the line is cleared, and all devices tick. -/
def round (hw : Hardware) : Hardware :=
  (hw.setTrap .clear).tickDevices

/-- The hardware after the given number of rounds. -/
def rounds (hw : Hardware) : Nat → Hardware
  | 0 => hw
  | k + 1 => (rounds hw k).round

/-- No device of `hw` counts or has a request to take: it is due, or at rest. -/
def Settled (hw : Hardware) : Prop :=
  ∀ dev d, hw.device? dev = some d → d.isDue = true ∨ d.isAtRest = true

theorem size_tickDevice (hw : Hardware) (dev : Nat) :
    (hw.tickDevice dev).devices.size = hw.devices.size := by
  unfold tickDevice
  cases hw.device? dev with
  | none => rfl
  | some d =>
    simp only [update]
    cases (d.tick hw.cpu.trap (hw.sourceOf? d) hw.files).device.job? <;>
      exact Array.size_setIfInBounds

theorem size_tickFirst (hw : Hardware) (n : Nat) :
    (hw.tickFirst n).devices.size = hw.devices.size := by
  induction n with
  | zero => rfl
  | succ n ih => rw [tickFirst_succ, size_tickDevice, ih]

/-- In a round the first device that is due makes its transfer. -/
theorem transfers_cleared (hw : Hardware) :
    (hw.setTrap .clear).transfers = hw.dueDevices.head?.toList := by
  rw [transfers_eq, setTrap, if_pos TrapLine.isIdle_clear]
  rfl

/-- In a round nothing becomes of the other devices `e` that have settled. -/
theorem Settled.device?_round (h : hw.Settled) (he : hw.dueDevices.head? ≠ some e) :
    hw.round.device? e = hw.device? e := by
  have hnot : e ∉ (hw.setTrap .clear).transfers := by
    rwa [transfers_cleared, Option.mem_toList]
  rw [round, device?_tickDevices hnot]
  -- clearing the line has left the devices as they were
  show (hw.device? e).map Device.bide = hw.device? e
  cases hd : hw.device? e with
  | none => rfl
  | some d =>
    rcases h e d hd with hdue | hrest
    · rw [Option.map_some, Device.bide_of_isDue hdue]
    · rw [Option.map_some, Device.bide_of_isAtRest hrest]

/-- In a round the first device `e` that is due comes to rest. -/
theorem atRest_round (he : hw.dueDevices.head? = some e) :
    ∃ d, hw.round.device? e = some d ∧ d.isAtRest = true := by
  have hone : (hw.setTrap .clear).transfers = [e] := by
    rw [transfers_cleared, he]
    rfl
  obtain ⟨_, d', _, -, -, hfound, hrest, -⟩ := completes_tickDevices hone
  exact ⟨d', hfound, hrest⟩

theorem Settled.round (h : hw.Settled) : hw.round.Settled := by
  intro e d hd
  by_cases he : hw.dueDevices.head? = some e
  · obtain ⟨d', hfound, hrest⟩ := atRest_round he
    obtain rfl := Option.some.inj (hfound.symm.trans hd)
    exact .inr hrest
  · exact h e d (h.device?_round he ▸ hd)

/-- The first element of the ascending list `l` occurs nowhere else in it. -/
private theorem filter_ne_head {l : List Nat} (h : l.Pairwise (· < ·)) :
    l.filter (fun e => l.head? ≠ some e) = l.tail := by
  cases l with
  | nil => rfl
  | cons a l =>
    have hgt := (List.pairwise_cons.1 h).1
    rw [List.filter_cons_of_neg (by simp), List.filter_eq_self.2 fun b hb => ?_, List.tail_cons]
    have hlt := hgt b hb
    simp only [List.head?_cons, ne_eq, Option.some.injEq, decide_eq_true_eq]
    omega

/-- The element `a` of the ascending list `l` does not occur before its place. -/
private theorem notMem_take_of_getElem? {l : List Nat} (h : l.Pairwise (· < ·)) {k a : Nat}
    (ha : l[k]? = some a) : a ∉ l.take k := by
  obtain ⟨hk, rfl⟩ := List.getElem?_eq_some_iff.1 ha
  have hlt := List.pairwise_append.1 ((List.take_append_drop k l).symm ▸ h)
  intro hmem
  have hself := hlt.2.2 _ hmem l[k] (List.mem_drop_iff_getElem.2 ⟨0, by omega, by simp⟩)
  exact Nat.lt_irrefl _ hself

/-- In a round the first device that is due goes off the list, and no other comes on it. -/
theorem Settled.dueDevices_round (h : hw.Settled) : hw.round.dueDevices = hw.dueDevices.tail := by
  have hdueAt : ∀ e, hw.round.isDueAt e =
      (decide (hw.dueDevices.head? ≠ some e) && hw.isDueAt e) := by
    intro e
    by_cases he : hw.dueDevices.head? = some e
    · obtain ⟨d, hfound, hrest⟩ := atRest_round he
      simp [isDueAt, hfound, he, Device.isDue_of_isAtRest hrest]
    · simp [isDueAt, h.device?_round he, he]
  -- no device comes or goes, so the same numbers are searched
  have hsize : hw.round.devices.size = hw.devices.size :=
    size_tickFirst (hw.setTrap .clear) hw.devices.size
  calc hw.round.dueDevices
      = (List.range' 1 hw.devices.size).filter fun e =>
          decide (hw.dueDevices.head? ≠ some e) && hw.isDueAt e := by
        rw [dueDevices, dueUpTo, hsize, funext hdueAt]
    _ = hw.dueDevices.filter fun e => hw.dueDevices.head? ≠ some e := by
        rw [← List.filter_filter, ← dueUpTo, ← dueDevices]
    _ = hw.dueDevices.tail := filter_ne_head (hw.pairwise_dueUpTo _)

/-- After `k` rounds the first `k` devices that were due have had their turns. -/
theorem Settled.rounds (h : hw.Settled) (k : Nat) :
    (hw.rounds k).Settled ∧ (hw.rounds k).dueDevices = hw.dueDevices.drop k ∧
      ∀ e, e ∉ hw.dueDevices.take k → (hw.rounds k).device? e = hw.device? e := by
  induction k with
  | zero => exact ⟨h, rfl, fun _ _ => rfl⟩
  | succ k ih =>
    obtain ⟨hsettled, hdue, hsame⟩ := ih
    refine ⟨hsettled.round, ?_, fun e he => ?_⟩
    · rw [Hardware.rounds, hsettled.dueDevices_round, hdue, List.tail_drop]
    · rw [List.take_add_one, List.mem_append, not_or] at he
      rw [Hardware.rounds, hsettled.device?_round, hsame e he.1]
      rw [hdue, List.head?_drop]
      exact fun hhead => he.2 (Option.mem_toList.2 hhead)

/-! ## One transfer at a time -/

/-- Devices that fall due together make their transfers one at a time, in the order of their
numbers, and none is lost. As long as the line of `hw` is busy there is none. When it is free there
is one, that of the first device that is due, and all other devices that are due stay as they are.
And if the line is cleared before each pass, each has its turn in a pass of its own. -/
theorem tickDevices_serialised (hw : Hardware) :
    (hw.dueDevices.Pairwise (· < ·) ∧
      ∀ dev, dev ∈ hw.dueDevices ↔ ∃ d, hw.device? dev = some d ∧ d.isDue = true) ∧
    (hw.cpu.trap.isIdle = false → hw.transfers = [] ∧ hw.SameBeside hw.tickDevices) ∧
    (hw.cpu.trap.isIdle = true →
      (hw.dueDevices = [] → hw.transfers = [] ∧ hw.SameBeside hw.tickDevices) ∧
      ∀ dev rest, hw.dueDevices = dev :: rest → hw.transfers = [dev] ∧
        ∃ d d' word, hw.device? dev = some d ∧ hw.tickDevices.device? dev = some d' ∧
          d'.isAtRest = true ∧ hw.Completes hw.tickDevices d d' word) ∧
    (∀ dev d, hw.device? dev = some d → d.isDue = true → dev ∉ hw.transfers →
      hw.tickDevices.device? dev = some d) ∧
    (hw.Settled →
      (∀ k, ((hw.rounds k).setTrap .clear).transfers = hw.dueDevices[k]?.toList) ∧
      (∀ k dev, hw.dueDevices[k]? = some dev →
        ∃ d d' word, hw.device? dev = some d ∧ (hw.rounds k).device? dev = some d ∧
          (hw.rounds (k + 1)).device? dev = some d' ∧
          ((hw.rounds k).setTrap .clear).Completes (hw.rounds (k + 1)) d d' word) ∧
      ∀ dev d, (hw.rounds hw.dueDevices.length).device? dev = some d → d.isAtRest = true) := by
  refine ⟨⟨hw.pairwise_dueUpTo _, fun dev => mem_dueDevices⟩, fun hbusy => ?_,
    fun hfree => ⟨?_, ?_⟩, fun dev d hd hdue hnot => ?_,
    fun hsettled => ⟨fun k => ?_, fun k dev hk => ?_, ?_⟩⟩
  · have hnone : hw.transfers = [] := by simp [transfers_eq, hbusy]
    exact ⟨hnone, sameBeside_tickDevices hnone⟩
  · intro hdue
    have hnone : hw.transfers = [] := by simp [transfers_eq, hdue]
    exact ⟨hnone, sameBeside_tickDevices hnone⟩
  · intro dev rest hdue
    have hone : hw.transfers = [dev] := by simp [transfers_eq, hfree, hdue]
    obtain ⟨d, d', word, hd, -, hd', hrest, hcompletes⟩ := completes_tickDevices hone
    exact ⟨hone, d, d', word, hd, hd', hrest, hcompletes⟩
  · rw [device?_tickDevices hnot, hd, Option.map_some, Device.bide_of_isDue hdue]
  · rw [transfers_cleared, (hsettled.rounds k).2.1, List.head?_drop]
  · -- the device has been waiting, as it was, since the first of the rounds
    have hone : ((hw.rounds k).setTrap .clear).transfers = [dev] := by
      rw [transfers_cleared, (hsettled.rounds k).2.1, List.head?_drop, hk]
      rfl
    obtain ⟨d, d', word, hd, -, hd', -, hcompletes⟩ := completes_tickDevices hone
    have hbefore := notMem_take_of_getElem? (hw.pairwise_dueUpTo _) hk
    exact ⟨d, d', word, ((hsettled.rounds k).2.2 dev hbefore).symm.trans hd, hd, hd', hcompletes⟩
  · intro dev d hd
    obtain ⟨hend, hdue, -⟩ := hsettled.rounds hw.dueDevices.length
    refine (hend dev d hd).resolve_left fun hnow => ?_
    have hmem := mem_dueDevices.2 ⟨d, hd, hnow⟩
    rw [hdue, List.drop_length] at hmem
    exact List.not_mem_nil hmem

/-- The output devices of two jobs are due, and only the first of them has a sink. -/
def bothDue : Hardware :=
  ((Hardware.new 2 1 #[none, none] .empty).setDevice 2
    ⟨2, .clear, 1, 1, .output 7 (some ⟨["out"], .plain⟩)⟩).setDevice 4
      ⟨4, .clear, 1, 1, .output (-8) none⟩

/-- The two devices complete one after the other, in the order in which they tick. -/
theorem tickDevices_serialised_two :
    bothDue.Settled ∧ bothDue.dueDevices = [2, 4] ∧ bothDue.transfers = [2] ∧
      (bothDue.round.setTrap .clear).transfers = [4] ∧
      ∀ dev d, bothDue.round.round.device? dev = some d → d.isAtRest = true := by
  have hsettled : bothDue.Settled := by
    have hall : ∀ d ∈ bothDue.devices.toList, d.isDue = true ∨ d.isAtRest = true := by decide
    intro dev d hd
    refine hall d ?_
    unfold device? at hd
    split at hd
    · exact absurd hd (by simp)
    · exact Array.mem_toList_iff.2 (Array.mem_of_getElem? hd)
  have hdue : bothDue.dueDevices = [2, 4] := by decide
  obtain ⟨-, -, hfree, -, hrounds⟩ := tickDevices_serialised bothDue
  obtain ⟨htransfers, -, hend⟩ := hrounds hsettled
  refine ⟨hsettled, hdue, ((hfree rfl).2 2 [4] hdue).1, ?_, ?_⟩
  · have hsecond := htransfers 1
    rwa [hdue] at hsecond
  · rwa [hdue] at hend

end Hardware

end BatchMachine
