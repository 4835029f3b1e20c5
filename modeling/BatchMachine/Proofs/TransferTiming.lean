import Mathlib.Data.Nat.Find
import Mathlib.Logic.ExistsUnique
import Mathlib.Order.Bounds.Defs
import BatchMachine.Proofs.DeviceTicks
import BatchMachine.Proofs.Instructions

/-!
# When a device makes its transfer

Between two ticks of a device anything may happen to the rest of the hardware, and the device may be
bound anew; as long as nothing is asked of it, its countdown goes on. Of the ticks after the one
that takes a request, the first makes the transfer that finds the processor's trap line free when
the delay is over. The ticks before change nothing but the countdown, and those after change
nothing.

* `Hardware.tickDevice_of_not_transfer`, `Hardware.tickDevice_of_transfer`: a device either bides
  its time or makes its transfer.
* `Hardware.Completes`: what a transfer comes to.
* `Hardware.Attends`: the hardware at the successive ticks of a device.
* `Hardware.underLines`: such hardware, for every sequence of lines that its ticks find.
* `Hardware.transfers_at_first_free`: the only transfer after a request, and what it does.
-/

namespace BatchMachine

open JobText

namespace Device

variable {d d' : Device} {free : Bool}

/-- The device `d` after a tick in which it makes no transfer. -/
def bide (d : Device) : Device :=
  if d.trap.trap? = some d.request then d.capture
  else if 2 ≤ d.timer then { d with timer := d.timer - 1 }
  else d

/-- The device `d`, if it makes no transfer, bides its time. -/
theorem tick_of_not_transfer {line : TrapLine} (source? : Option Reader) (files : Files)
    (h : d.phase line.isIdle ≠ .transfer) :
    d.tick line source? files = ⟨d.bide, line, source?, files, none⟩ := by
  unfold bide
  rcases tick_cases d line source? files with
    ⟨hrequest, ht⟩ | ⟨hrequest, ⟨hzero, ht⟩ | ⟨hmany, ht⟩ | ⟨hone, _, ht⟩ | ⟨hone, hfree, _⟩⟩
  · rw [ht, if_pos hrequest]
  · rw [ht, if_neg hrequest, if_neg (by omega)]
  · rw [ht, if_neg hrequest, if_pos hmany]
  · rw [ht, if_neg hrequest, if_neg (by omega)]
  · exact absurd (phase_eq_transfer_iff.2 ⟨by simp [isDue, hone, hrequest], hfree⟩) h

theorem tick_of_transfer {line : TrapLine} (source? : Option Reader) (files : Files)
    (h : d.phase line.isIdle = .transfer) :
    d.tick line source? files = d.transfer source? files := by
  rw [tick, h]

/-- The device `d`, if it is due, bides its time as it is. -/
theorem bide_of_isDue (h : d.isDue = true) : d.bide = d := by
  obtain ⟨hone, hrequest⟩ := isDue_iff.1 h
  rw [bide, if_neg hrequest, if_neg (by omega)]

/-- The device `d`, if it has nothing to do, bides its time as it is. -/
theorem bide_of_timer_eq_zero (hrequest : d.trap.trap? ≠ some d.request) (h : d.timer = 0) :
    d.bide = d := by
  rw [bide, if_neg hrequest, if_neg (by omega)]

/-- `bide` keeps what the device `d` is bound to. -/
theorem job?_bide (d : Device) : d.bide.job? = d.job? := by
  unfold bide
  split
  · unfold job? capture
    cases d.link <;> rfl
  · split <;> rfl

/-- `readWord` reads the next word of a text, or there is none. -/
theorem readWord_cases (source? : Option Reader) :
    (∃ r w r', source? = some r ∧ r.fetchInput = (.ok (some w), r') ∧
      readWord source? = (.ok w, some r')) ∨
    ((∃ e after?, readWord source? = (.error e, after?)) ∧
      ∀ r w r', source? = some r → r.fetchInput ≠ (.ok (some w), r')) := by
  cases source? with
  | none => exact .inr ⟨⟨_, _, rfl⟩, by simp⟩
  | some r =>
    cases hfetch : r.fetchInput with
    | mk result r' =>
      rcases result with e | word?
      · refine .inr ⟨⟨.input e, some r', by simp [readWord, hfetch]⟩, ?_⟩
        rintro _ _ _ ⟨⟩
        simp [hfetch]
      · cases word? with
        | none =>
          refine .inr ⟨⟨.nothing, some r', by simp [readWord, hfetch]⟩, ?_⟩
          rintro _ _ _ ⟨⟩
          simp [hfetch]
        | some w => exact .inl ⟨r, w, r', rfl, hfetch, by simp [readWord, hfetch]⟩

end Device

namespace Hardware

variable {hw hw' : Hardware} {dev e : Nat} {d d' : Device} {t : Device.Tick}

/-! ## One tick of a device -/

/-- Putting into `xs` what is there changes nothing. -/
private theorem setIfInBounds_eq_self {α : Type} {xs : Array α} {i : Nat} {a : α}
    (h : ∀ b, xs[i]? = some b → b = a) : xs.setIfInBounds i a = xs := by
  apply Array.ext_getElem?
  intro k
  rw [Array.getElem?_setIfInBounds]
  by_cases hk : i = k
  · subst hk
    cases hget : xs[i]? with
    | none => simpa using Array.getElem?_eq_none_iff.1 hget
    | some b =>
      have hlt : i < xs.size := (Array.getElem?_eq_some_iff.1 hget).1
      rw [if_pos rfl, if_pos hlt, h b hget]
  · rw [if_neg hk]

theorem ne_zero_of_device? (h : hw.device? dev = some d) : dev ≠ 0 := by
  rintro rfl
  simp [device?] at h

theorem setDevice_self (h : hw.device? dev = some d) : hw.setDevice dev d = hw := by
  have hget : hw.devices[dev - 1]? = some d := by
    rwa [device?, if_neg (ne_zero_of_device? h)] at h
  rw [setDevice, setIfInBounds_eq_self fun b hb => Option.some.inj (hb.symm.trans hget)]

theorem device?_setDevice_self (h : hw.device? dev = some d) :
    (hw.setDevice dev d').device? dev = some d' := by
  rw [Machine.device?_setDevice hw (ne_zero_of_device? h), if_pos rfl, h]
  rfl

theorem files_update (hw : Hardware) (dev : Nat) (t : Device.Tick) :
    (hw.update dev t).files = t.files := by
  unfold update
  cases t.device.job? <;> rfl

theorem device?_update (hw : Hardware) (dev e : Nat) (t : Device.Tick) :
    (hw.update dev t).device? e = (hw.setDevice dev t.device).device? e := by
  unfold update
  cases t.device.job? <;> rfl

/-- The reader of the text that the device `d` is bound to has moved on with it. -/
theorem source?_update {job : Nat} {r : Reader} (hjob : t.device.job? = some job)
    (hsource : hw.source? job = some r) : (hw.update dev t).source? job = t.source? := by
  have hlt : job < hw.sources.size := by
    refine Nat.lt_of_not_le fun hle => ?_
    simp [source?, Array.getElem?_eq_none hle] at hsource
  unfold update
  rw [hjob]
  simp [source?, setSource, setDevice, setTrap, hlt]

/-- `tickDevice` changes nothing but the device `d` if this makes no transfer. -/
theorem tickDevice_of_not_transfer (hd : hw.device? dev = some d)
    (h : d.phase hw.cpu.trap.isIdle ≠ .transfer) :
    hw.tickDevice dev = hw.setDevice dev d.bide := by
  have hsources : ∀ job, hw.sources.setIfInBounds job (hw.source? job) = hw.sources := fun job =>
    setIfInBounds_eq_self fun b hb => by rw [source?, hb, Option.join_some]
  unfold tickDevice
  rw [hd]
  simp only [Device.tick_of_not_transfer _ _ h, update, Device.job?_bide]
  cases hjob : d.job? with
  | none => rfl
  | some job =>
    -- the reader that is put back is the one that was there
    have hsource : hw.sourceOf? d = hw.source? job := by rw [sourceOf?, hjob, Option.bind_some]
    simp only [hsource, setSource, setTrap, setDevice, hsources]

theorem tickDevice_of_transfer (hd : hw.device? dev = some d)
    (h : d.phase hw.cpu.trap.isIdle = .transfer) :
    hw.tickDevice dev = hw.update dev (d.transfer (hw.sourceOf? d) hw.files) := by
  unfold tickDevice
  rw [hd]
  simp only [Device.tick_of_transfer _ _ h]

/-- The device with the number `dev` makes its transfer if it ticks now. -/
def isTransfer (hw : Hardware) (dev : Nat) : Bool :=
  (hw.device? dev).any fun d => d.phase hw.cpu.trap.isIdle = .transfer

theorem isTransfer_iff (hd : hw.device? dev = some d) :
    hw.isTransfer dev = true ↔ d.isDue = true ∧ hw.cpu.trap.isIdle = true := by
  rw [isTransfer, hd, Option.any_some, decide_eq_true_iff, Device.phase_eq_transfer_iff]

/-- What the transfer of a device comes to. The device has been asked to write `word`, if it is an
output device. It is `d` before its tick and `d'` after it, and the hardware `hw` and `hw'`. -/
inductive Completes (hw hw' : Hardware) (d d' : Device) (word : Word) : Prop
  /-- The word `w` has been read from the text of `job`, and the device holds it. -/
  | read {job : Nat} {r r' : Reader} {w : Word} (hlink : d.link = .input (some job))
      (hsource : hw.source? job = some r) (hfetch : r.fetchInput = (.ok (some w), r'))
      (hcpu : hw'.cpu = { hw.cpu with trap := ⟨Trap.getwReady.code, .ofCount d.number, 0⟩ })
      (hheld : d'.value? = some w) (hafter : hw'.source? job = some r')
      (hfiles : hw'.files = hw.files)
  /-- There was no word to read. -/
  | starved {job? : Option Nat} (hlink : d.link = .input job?)
      (hnone : ∀ job r w r', job? = some job → hw.source? job = some r →
        r.fetchInput ≠ (.ok (some w), r'))
      (hcpu : hw'.cpu = { hw.cpu with trap := ⟨Trap.getwReady.code, .ofCount d.number, 1⟩ })
      (hfiles : hw'.files = hw.files)
  /-- `word` has been written, in decimal and on a line of its own. -/
  | written {s s' : Sink} (hlink : d.link = .output word (some s))
      (htransfer : s.transfer (Numeral.decimal word ++ "\n") hw.files = (none, s', hw'.files))
      (hfiles : hw'.files = hw.files.append s.target (Numeral.decimal word ++ "\n"))
      (hcpu : hw'.cpu = { hw.cpu with trap := ⟨Trap.putwReady.code, .ofCount d.number, 0⟩ })
  /-- There was no sink to write `word` to, or it refused the word. -/
  | refused {sink? : Option Sink} (hlink : d.link = .output word sink?)
      (hnone : ∀ s, sink? = some s →
        (s.transfer (Numeral.decimal word ++ "\n") hw.files).1 ≠ none)
      (hcpu : hw'.cpu = { hw.cpu with trap := ⟨Trap.putwReady.code, .ofCount d.number, 1⟩ })

/-- The sink `s`, if it has passed on a text, has appended it to its target. -/
theorem files_of_transfer {s s' : Sink} {text : String} {files files' : Files}
    (h : s.transfer text files = (none, s', files')) : files' = files.append s.target text := by
  obtain ⟨target, medium⟩ := s
  cases medium with
  | plain =>
    cases h
    rfl
  | full pending => simp [Sink.transfer, Sink.write, Sink.flush] at h
  | limited writable flushes? =>
    cases writable with
    | false => simp [Sink.transfer, Sink.write] at h
    | true =>
      rcases flushes? with _ | _ | n
      · cases h
        rfl
      · simp [Sink.transfer, Sink.write, Sink.flush] at h
      · cases h
        rfl

/-- The transfer of an input device reads a word, or there is none to read. -/
theorem completes_input {job? : Option Nat} (word : Word) (hlink : d.link = .input job?) :
    hw.Completes (hw.update dev (d.transfer (hw.sourceOf? d) hw.files)) d
      (d.transfer (hw.sourceOf? d) hw.files).device word := by
  have hsourceOf : hw.sourceOf? d = job?.bind hw.source? := by simp [sourceOf?, Device.job?, hlink]
  have hcompletion : d.completion = .getwReady := by simp [Device.completion, Device.isInput, hlink]
  -- there is a word to read, or there is none
  rcases Device.readWord_cases (hw.sourceOf? d) with
    ⟨r, w, r', hsource, hfetch, hread⟩ | ⟨⟨e, after?, hread⟩, hnone⟩
  · obtain ⟨job, rfl, hr⟩ := Option.bind_eq_some_iff.1 (hsourceOf ▸ hsource)
    have ht : d.transfer (hw.sourceOf? d) hw.files =
        ⟨{ d with timer := 0, trap := { d.trap with data := w } }, d.signal true, some r',
          hw.files, none⟩ := by simp only [Device.transfer, hlink, hread]
    rw [ht]
    refine .read hlink hr hfetch ?_ ?_ ?_ (files_update ..)
    · rw [cpu_update, Device.signal, hcompletion]
      rfl
    · simp [Device.value?, Device.isInput, hlink]
    · exact source?_update (by simp [Device.job?, hlink]) hr
  · have ht : d.transfer (hw.sourceOf? d) hw.files =
        ⟨{ d with timer := 0 }, d.signal false, after?, hw.files, some e⟩ := by
      simp only [Device.transfer, hlink, hread]
    rw [ht]
    refine .starved hlink ?_ ?_ (files_update ..)
    · rintro job r w r' rfl hr
      exact hnone r w r' (hsourceOf.trans hr)
    · rw [cpu_update, Device.signal, hcompletion]
      rfl

/-- The transfer of an output device writes `word`, or the sink refuses it. -/
theorem completes_output {word : Word} {sink? : Option Sink} (hlink : d.link = .output word sink?) :
    hw.Completes (hw.update dev (d.transfer (hw.sourceOf? d) hw.files)) d
      (d.transfer (hw.sourceOf? d) hw.files).device word := by
  have hcompletion : d.completion = .putwReady := by simp [Device.completion, Device.isInput, hlink]
  cases sink? with
  | none =>
    refine .refused hlink (by simp) ?_
    rw [cpu_update, Device.line_transfer, Device.signal, hcompletion]
    simp [Device.transfer, hlink, Device.writeWord]
  | some s =>
    rcases htransfer : s.transfer (Numeral.decimal word ++ "\n") hw.files with ⟨error?, s', files'⟩
    cases error? with
    | none =>
      have hfiles : (hw.update dev (d.transfer (hw.sourceOf? d) hw.files)).files = files' := by
        rw [files_update]
        simp only [Device.transfer, hlink, Device.writeWord, htransfer]
      refine .written hlink (hfiles ▸ htransfer) (hfiles.trans (files_of_transfer htransfer)) ?_
      rw [cpu_update, Device.line_transfer, Device.signal, hcompletion]
      simp [Device.transfer, hlink, Device.writeWord, htransfer]
    | some e =>
      refine .refused hlink (by rintro _ ⟨⟩; simp [htransfer]) ?_
      rw [cpu_update, Device.line_transfer, Device.signal, hcompletion]
      simp [Device.transfer, hlink, Device.writeWord, htransfer]

end Hardware

/-! ## The successive ticks of a device -/

/-- What may become of the device `d` between two of its ticks while nothing is asked of it: it may
be bound anew, and the word that it holds may be taken. -/
structure Device.Undisturbed (d d' : Device) : Prop where
  /-- It has its number. -/
  number : d'.number = d.number
  /-- It goes on with its countdown. -/
  timer : d'.timer = d.timer
  /-- It may be bound to something else. -/
  link : d.link.Rebinds d'.link
  /-- There is no request on its line. -/
  trap : d'.trap.isIdle = true

namespace Hardware

/-- The hardware at the successive ticks of a device, `course n` when it ticks for the `n`-th time
after the first. Between its ticks anything may happen to everything else. -/
def Attends (dev : Nat) (course : Nat → Hardware) : Prop :=
  ∀ n, ∃ d d', ((course n).tickDevice dev).device? dev = some d ∧
    (course (n + 1)).device? dev = some d' ∧ d.Undisturbed d'

/-- Tick `n` is the first that finds the processor's line free when a delay, of at least one tick,
is over. -/
def FirstFree (course : Nat → Hardware) (delay n : Nat) : Prop :=
  IsLeast {k | max delay 1 ≤ k ∧ (course k).cpu.trap.isIdle = true} n

/-- The device with the number `dev` only counts in its tick. It is not idle, neither before nor
after. -/
def Waits (hw : Hardware) (dev : Nat) : Prop :=
  ∃ (d : Device) (timer : Nat), hw.device? dev = some d ∧ d.isIdle = false ∧
    Device.isIdle { d with timer } = false ∧ hw.tickDevice dev = hw.setDevice dev { d with timer }

/-- The countdown of a device that has taken the request of `d` stands at `timer`. -/
structure Stands (hw : Hardware) (dev : Nat) (d d' : Device) (timer : Nat) : Prop where
  found : hw.device? dev = some d'
  number : d'.number = d.number
  timer : d'.timer = timer
  link : d.capture.link.Rebinds d'.link
  trap : d'.trap.isIdle = true

variable {hw : Hardware} {dev n timer : Nat} {d d' : Device} {course : Nat → Hardware}

/-- Nobody but the device `dev` itself moves its countdown. -/
theorem Attends.stands (hcourse : Attends dev course)
    (h : ((course n).tickDevice dev).Stands dev d d' timer) :
    ∃ d'', (course (n + 1)).Stands dev d d'' timer := by
  obtain ⟨d₁, d₂, hfound, hnext, hleft⟩ := hcourse n
  obtain rfl := Option.some.inj (hfound.symm.trans h.found)
  exact ⟨d₂, hnext, hleft.number.trans h.number, hleft.timer.trans h.timer,
    h.link.trans hleft.link, hleft.trap⟩

theorem Stands.ne_request (h : hw.Stands dev d d' timer) : d'.trap.trap? ≠ some d'.request := by
  rw [TrapLine.trap?_eq_none h.trap]
  simp

theorem Stands.isDue_iff (h : hw.Stands dev d d' timer) : d'.isDue = true ↔ timer = 1 := by
  simp [Device.isDue, h.ne_request, h.timer]

/-- A countdown `timer` that is not over, or over while the line is busy, goes on, but not below
one. -/
theorem Stands.waits (h : hw.Stands dev d d' timer) (hpos : 0 < timer)
    (hbusy : ¬ (timer = 1 ∧ hw.cpu.trap.isIdle = true)) :
    hw.Waits dev ∧ ∃ d'', (hw.tickDevice dev).Stands dev d d'' (max (timer - 1) 1) := by
  have hphase : d'.phase hw.cpu.trap.isIdle ≠ .transfer := fun hphase => by
    rw [Device.phase_eq_transfer_iff, h.isDue_iff] at hphase
    exact hbusy hphase
  -- a countdown that is over while the line is busy is held at one
  have hbide : d'.bide = { d' with timer := max (timer - 1) 1 } := by
    have htimer := h.timer
    rw [Device.bide, if_neg h.ne_request, htimer]
    split
    · rw [show max (timer - 1) 1 = timer - 1 by omega]
    · rw [show max (timer - 1) 1 = d'.timer by omega]
  have htick : hw.tickDevice dev = hw.setDevice dev { d' with timer := max (timer - 1) 1 } := by
    rw [tickDevice_of_not_transfer h.found hphase, hbide]
  refine ⟨⟨d', max (timer - 1) 1, h.found, ?_, ?_, htick⟩,
    { d' with timer := max (timer - 1) 1 }, ?_, h.number, rfl, h.link, h.trap⟩
  · have htimer := h.timer
    simp only [Device.isIdle, Bool.and_eq_false_iff, beq_eq_false_iff_ne]
    omega
  · simp only [Device.isIdle, Bool.and_eq_false_iff, beq_eq_false_iff_ne]
    omega
  · rw [htick]
    exact device?_setDevice_self h.found

/-- The word to write is the one that the device `d` was asked for. -/
theorem Stands.completes (h : hw.Stands dev d d' timer) :
    hw.Completes (hw.update dev (d'.transfer (hw.sourceOf? d') hw.files)) d'
      (d'.transfer (hw.sourceOf? d') hw.files).device d.trap.data := by
  have hlink := h.link
  cases hbound : d'.link with
  -- an input device has no word to write, so any will do
  | input job? => exact completes_input _ hbound
  | output word sink? =>
    obtain rfl : d.trap.data = word := by
      rw [hbound, Device.capture] at hlink
      cases hfirst : d.link <;> rw [hfirst] at hlink <;> cases hlink
      rfl
    exact completes_output hbound

theorem Stands.isInput_eq (h : hw.Stands dev d d' timer) : d'.isInput = d.isInput := by
  have hcapture : d.capture.isInput = d.isInput := by
    unfold Device.isInput Device.capture
    cases d.link <;> rfl
  exact h.link.isInput_eq.trans hcapture

/-- A countdown of one ends with a transfer if the line is free. -/
theorem Stands.transfers (h : hw.Stands dev d d' 1) (hfree : hw.cpu.trap.isIdle = true) :
    ∃ d'', (hw.tickDevice dev).Stands dev d d'' 0 ∧
      hw.Completes (hw.tickDevice dev) d' d'' d.trap.data := by
  have hphase := Device.phase_eq_transfer_iff.2 ⟨h.isDue_iff.2 rfl, hfree⟩
  obtain ⟨htimer, hnumber, htrap, hlink⟩ := d'.device_transfer (hw.sourceOf? d') hw.files
  rw [tickDevice_of_transfer h.found hphase]
  refine ⟨_, ⟨?_, hnumber.trans h.number, htimer, h.link.trans hlink, ?_⟩, h.completes⟩
  · rw [device?_update]
    exact device?_setDevice_self h.found
  · rw [TrapLine.isIdle, htrap]
    exact h.trap

/-- The device `d`, when its countdown is over and done, rests. -/
theorem Stands.rests (h : hw.Stands dev d d' 0) : hw.tickDevice dev = hw := by
  have hphase : d'.phase hw.cpu.trap.isIdle ≠ .transfer := fun hphase => by
    rw [Device.phase_eq_transfer_iff, h.isDue_iff] at hphase
    exact absurd hphase.1 (by decide)
  rw [tickDevice_of_not_transfer h.found hphase,
    Device.bide_of_timer_eq_zero h.ne_request h.timer, setDevice_self h.found]

/-- In the tick that finds its request the device `d` only takes it. -/
theorem captures (hd : hw.device? dev = some d) (hrequest : d.trap.trap? = some d.request) :
    hw.isTransfer dev = false ∧ hw.tickDevice dev = hw.setDevice dev d.capture ∧
      (hw.tickDevice dev).Stands dev d d.capture (max d.delay 1) := by
  have hdue : d.isDue = false := by simp [Device.isDue, hrequest]
  have hphase : d.phase hw.cpu.trap.isIdle ≠ .transfer := fun hphase => by
    rw [Device.phase_eq_transfer_iff, hdue] at hphase
    exact absurd hphase.1 (by decide)
  have htick : hw.tickDevice dev = hw.setDevice dev d.capture := by
    rw [tickDevice_of_not_transfer hd hphase, Device.bide, if_pos hrequest]
  refine ⟨?_, htick, ?_, rfl, rfl, .refl _, rfl⟩
  · rw [Bool.eq_false_iff, ne_eq, isTransfer_iff hd, hdue]
    simp
  · rw [htick]
    exact device?_setDevice_self hd

/-! ## All ticks after a request -/

/-- If the line is free in tick `n`, when the delay is over, then there is a first such tick. -/
theorem exists_firstFree {delay : Nat} (hdelay : max delay 1 ≤ n)
    (hfree : (course n).cpu.trap.isIdle = true) : ∃ k ≤ n, FirstFree course delay k := by
  have hexists : ∃ k, max delay 1 ≤ k ∧ (course k).cpu.trap.isIdle = true := ⟨n, hdelay, hfree⟩
  exact ⟨Nat.find hexists, Nat.find_min' hexists ⟨hdelay, hfree⟩, Nat.find_spec hexists,
    fun k hk => Nat.find_min' hexists hk⟩

/-- A countdown that is over before the first free tick finds the line busy. -/
theorem not_over {delay : Nat} (hnone : ∀ k ≤ n + 1, ¬ FirstFree course delay k) :
    ¬ (max (max delay 1 - n) 1 = 1 ∧ (course (n + 1)).cpu.trap.isIdle = true) := by
  rintro ⟨hone, hfree⟩
  obtain ⟨k, hk, hfirst⟩ := exists_firstFree (by omega : max delay 1 ≤ n + 1) hfree
  exact hnone k hk hfirst

/-- Until the first free tick the countdown of the device `dev` goes on. -/
theorem Attends.counts (hcourse : Attends dev course) (hd : (course 0).device? dev = some d)
    (hrequest : d.trap.trap? = some d.request) (hnone : ∀ k ≤ n, ¬ FirstFree course d.delay k) :
    ∃ d', (course (n + 1)).Stands dev d d' (max (max d.delay 1 - n) 1) := by
  -- the subtraction is cut off at zero, so a countdown that is over stands at one
  induction n with
  | zero =>
    have hstands := hcourse.stands (captures hd hrequest).2.2
    rwa [show max (max d.delay 1 - 0) 1 = max d.delay 1 by omega]
  | succ n ih =>
    obtain ⟨d', hstands⟩ := ih fun k hk => hnone k (by omega)
    obtain ⟨-, d'', hnext⟩ := hstands.waits (by omega) (not_over hnone)
    rw [show max (max (max d.delay 1 - n) 1 - 1) 1 = max (max d.delay 1 - (n + 1)) 1 by omega]
      at hnext
    exact hcourse.stands hnext

/-- At the first free tick `n` the countdown of the device `dev` stands at one. -/
theorem Attends.stands_of_firstFree (hcourse : Attends dev course)
    (hd : (course 0).device? dev = some d) (hrequest : d.trap.trap? = some d.request)
    (hfirst : FirstFree course d.delay n) : ∃ d', (course n).Stands dev d d' 1 := by
  have hdelay : max d.delay 1 ≤ n := hfirst.1.1
  -- the delay is at least one tick, so there is a tick before
  obtain ⟨n, rfl⟩ : ∃ m, n = m + 1 := ⟨n - 1, by omega⟩
  have hnone : ∀ k ≤ n, ¬ FirstFree course d.delay k := fun k hk hother => by
    have := hfirst.2 hother.1
    omega
  have hcounts := hcourse.counts hd hrequest hnone
  rwa [show max (max d.delay 1 - n) 1 = 1 by omega] at hcounts

/-- After the first free tick the device `dev` rests. -/
theorem Attends.rests_of_firstFree (hcourse : Attends dev course)
    (hd : (course 0).device? dev = some d) (hrequest : d.trap.trap? = some d.request)
    (hfirst : FirstFree course d.delay n) (m : Nat) :
    ∃ d', (course (n + 1 + m)).Stands dev d d' 0 := by
  induction m with
  | zero =>
    obtain ⟨d', hstands⟩ := hcourse.stands_of_firstFree hd hrequest hfirst
    obtain ⟨d'', hdone, -⟩ := hstands.transfers hfirst.1.2
    exact hcourse.stands hdone
  | succ m ih =>
    -- a tick at rest changes nothing, and neither does what happens before the next one
    obtain ⟨d', hstands⟩ := ih
    exact hcourse.stands (hstands.rests.symm ▸ hstands)

/-- The device `dev` makes its transfer in the first free tick and in no other. -/
theorem Attends.isTransfer_iff_firstFree (hcourse : Attends dev course)
    (hd : (course 0).device? dev = some d) (hrequest : d.trap.trap? = some d.request) (n : Nat) :
    (course n).isTransfer dev = true ↔ FirstFree course d.delay n := by
  constructor
  · -- a tick before the first free one, or after it, makes no transfer
    intro htransfer
    by_contra hnot
    by_cases hbefore : ∃ k < n, FirstFree course d.delay k
    · obtain ⟨k, hk, hfirst⟩ := hbefore
      obtain ⟨d', hstands⟩ := hcourse.rests_of_firstFree hd hrequest hfirst (n - (k + 1))
      rw [show k + 1 + (n - (k + 1)) = n by omega] at hstands
      rw [isTransfer_iff hstands.found, hstands.isDue_iff] at htransfer
      exact absurd htransfer.1 (by decide)
    · have hnone : ∀ k ≤ n, ¬ FirstFree course d.delay k := fun k hk hfirst => by
        rcases Nat.lt_or_eq_of_le hk with hlt | rfl
        · exact hbefore ⟨k, hlt, hfirst⟩
        · exact hnot hfirst
      cases n with
      | zero =>
        rw [(captures hd hrequest).1] at htransfer
        exact absurd htransfer (by decide)
      | succ n =>
        obtain ⟨d', hstands⟩ := hcourse.counts (n := n) hd hrequest fun k hk => hnone k (by omega)
        rw [isTransfer_iff hstands.found, hstands.isDue_iff] at htransfer
        exact not_over hnone htransfer
  · intro hfirst
    obtain ⟨d', hstands⟩ := hcourse.stands_of_firstFree hd hrequest hfirst
    exact (isTransfer_iff hstands.found).2 ⟨hstands.isDue_iff.2 rfl, hfirst.1.2⟩

theorem status_of_unbound {word : Word} {hw' : Hardware} {d'' : Device}
    (h : hw.Completes hw' d' d'' word) (hjob : d'.job? = none) (hsink : d'.sink? = none) :
    hw'.cpu.trap.status = 1 := by
  cases h with
  | read hlink => simp [Device.job?, hlink] at hjob
  | written hlink => simp [Device.sink?, hlink] at hsink
  | starved _ _ hcpu | refused _ _ hcpu => rw [hcpu]

/-! ## Lines that are set from outside -/

/-- The hardware at the successive ticks of the device `dev` when nothing else happens than that the
processor's trap line is set before each of them, to `lines`. -/
def underLines (hw : Hardware) (dev : Nat) (lines : Nat → TrapLine) : Nat → Hardware
  | 0 => hw.setTrap (lines 0)
  | n + 1 => ((underLines hw dev lines n).tickDevice dev).setTrap (lines (n + 1))

theorem line_underLines (hw : Hardware) (dev : Nat) (lines : Nat → TrapLine) (n : Nat) :
    (hw.underLines dev lines n).cpu.trap = lines n := by
  cases n <;> rfl

/-- `tickDevice` puts no request on the line of the device. -/
theorem isIdle_tickDevice (hd : hw.device? dev = some d)
    (htrap : d.trap.isIdle = true ∨ d.trap.trap? = some d.request) :
    ∃ d', (hw.tickDevice dev).device? dev = some d' ∧ d'.trap.isIdle = true := by
  unfold tickDevice
  rw [hd]
  simp only [device?_update]
  exact ⟨_, device?_setDevice_self hd, Device.isIdle_trap_tick htrap ..⟩

/-- Setting the processor's line to `lines` leaves the device `dev` undisturbed. -/
theorem attends_underLines (lines : Nat → TrapLine) (hd : hw.device? dev = some d)
    (hrequest : d.trap.trap? = some d.request) : Attends dev (hw.underLines dev lines) := by
  have hidle : ∀ n, ∃ d', ((hw.underLines dev lines n).tickDevice dev).device? dev = some d' ∧
      d'.trap.isIdle = true := by
    intro n
    induction n with
    | zero => exact isIdle_tickDevice hd (.inr hrequest)
    | succ n ih =>
      obtain ⟨d', hfound, htrap⟩ := ih
      exact isIdle_tickDevice hfound (.inl htrap)
  intro n
  obtain ⟨d', hfound, htrap⟩ := hidle n
  exact ⟨d', d', hfound, hfound, rfl, rfl, .refl _, htrap⟩

/-! ## The only transfer -/

/-- After a request the device `dev` makes its transfer exactly once, in the first tick that finds
the processor's line free when the delay is over. Before that it only counts, in that tick it does
what it has been asked for and signals this, and after it does nothing. `course n` is the hardware
before the tick `n` after the request. -/
theorem transfers_at_first_free (hcourse : Attends dev course)
    (hd : (course 0).device? dev = some d) (hrequest : d.trap.trap? = some d.request) :
    ((course 0).tickDevice dev = (course 0).setDevice dev d.capture ∧ d.capture.isIdle = false) ∧
    (∀ n, (course n).isTransfer dev = true ↔ FirstFree course d.delay n) ∧
    ((∃ n, max d.delay 1 ≤ n ∧ (course n).cpu.trap.isIdle = true) →
      ∃! n, (course n).isTransfer dev = true) ∧
    ∀ n, 1 ≤ n →
      ((∀ k ≤ n, ¬ FirstFree course d.delay k) → (course n).Waits dev) ∧
      (FirstFree course d.delay n → ∃ d' d'', (course n).device? dev = some d' ∧
        ((course n).tickDevice dev).device? dev = some d'' ∧
        d'.number = d.number ∧ d'.isInput = d.isInput ∧ d''.isIdle = true ∧
        (course n).Completes ((course n).tickDevice dev) d' d'' d.trap.data ∧
        (d'.job? = none → d'.sink? = none → ((course n).tickDevice dev).cpu.trap.status = 1)) ∧
      ((∃ k < n, FirstFree course d.delay k) → (course n).tickDevice dev = course n) := by
  have htransfer := hcourse.isTransfer_iff_firstFree hd hrequest
  refine ⟨⟨(captures hd hrequest).2.1, ?_⟩, htransfer, ?_, fun n hn => ⟨?_, ?_, ?_⟩⟩
  · simp only [Device.isIdle, Device.capture, Bool.and_eq_false_iff, beq_eq_false_iff_ne]
    omega
  · -- of two first free ticks none is before the other
    rintro ⟨n, hdelay, hfree⟩
    obtain ⟨k, -, hfirst⟩ := exists_firstFree hdelay hfree
    refine ⟨k, (htransfer k).2 hfirst, fun k' hk' => ?_⟩
    have hfirst' := (htransfer k').1 hk'
    exact Nat.le_antisymm (hfirst'.2 hfirst.1) (hfirst.2 hfirst'.1)
  · -- before its transfer the countdown of the device stands at one or more
    intro hnone
    obtain ⟨n, rfl⟩ : ∃ m, n = m + 1 := ⟨n - 1, by omega⟩
    obtain ⟨d', hstands⟩ := hcourse.counts (n := n) hd hrequest fun k hk => hnone k (by omega)
    exact (hstands.waits (by omega) (not_over hnone)).1
  · intro hfirst
    obtain ⟨d', hstands⟩ := hcourse.stands_of_firstFree hd hrequest hfirst
    obtain ⟨d'', hdone, hcompletes⟩ := hstands.transfers hfirst.1.2
    refine ⟨d', d'', hstands.found, hdone.found, hstands.number, hstands.isInput_eq, ?_, hcompletes,
      status_of_unbound hcompletes⟩
    simp [Device.isIdle, hdone.trap, hdone.timer]
  · -- after its transfer the device has nothing to do
    rintro ⟨k, hk, hfirst⟩
    obtain ⟨d', hstands⟩ := hcourse.rests_of_firstFree hd hrequest hfirst (n - (k + 1))
    rw [show k + 1 + (n - (k + 1)) = n by omega] at hstands
    exact hstands.rests

/-- The output device of the only job has been asked to write `word`. -/
def asked (word : Word) (delay : Nat) : Hardware :=
  (Hardware.new 1 delay #[none] .empty).setDevice 2
    ⟨2, .raise .putw word, 0, delay, .output 0 (some ⟨["out"], .plain⟩)⟩

/-- Its line is busy for two ticks more than it has to wait. -/
def busyForFive (n : Nat) : TrapLine :=
  if n < 5 then .raise .putwReady 1 else .clear

/-- The line is held for two ticks after the countdown, and the word goes out in the tick after
them. -/
theorem transfers_at_first_free_held :
    let course := (asked (-15) 3).underLines 2 busyForFive
    FirstFree course 3 5 ∧ (course 4).Waits 2 ∧
      (∃ d' d'', (course 5).Completes ((course 5).tickDevice 2) d' d'' (-15)) ∧
      (course 6).tickDevice 2 = course 6 := by
  intro course
  have hline : ∀ k, (course k).cpu.trap = busyForFive k := fun k => line_underLines ..
  have hfirst : FirstFree course 3 5 := by
    refine ⟨⟨by decide, by rw [hline]; rfl⟩, fun k ⟨_, hfree⟩ => ?_⟩
    rw [hline, busyForFive] at hfree
    split at hfree
    · exact absurd hfree (by decide)
    · omega
  have hnone : ∀ k ≤ 4, ¬ FirstFree course 3 k := fun k hk hk' => by
    have := hfirst.2 hk'.1
    omega
  have hcourse : Attends 2 course :=
    attends_underLines busyForFive rfl rfl
  obtain ⟨-, -, -, hticks⟩ := transfers_at_first_free hcourse rfl rfl
  obtain ⟨d', d'', -, -, -, -, -, hcompletes, -⟩ := (hticks 5 (by decide)).2.1 hfirst
  exact ⟨hfirst, (hticks 4 (by decide)).1 hnone, ⟨d', d'', hcompletes⟩,
    (hticks 6 (by decide)).2.2 ⟨5, by decide, hfirst⟩⟩

end Hardware

end BatchMachine
