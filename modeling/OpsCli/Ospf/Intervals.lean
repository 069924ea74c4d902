import OpsCli.CLib.Runs
import OpsCli.Ospf.Database

/-!
# Hello and dead intervals

The dead interval is to be a multiple of the hello interval.  The handlers look
at the hello interval when a dead interval is given, but not at the dead
interval when the hello interval changes; on a virtual link the default of the
dead interval is set without a look.
-/

namespace OpsCli.Ospf.Intervals

open CLib CString Columns Conversion Runs Bgp.PrefixList
  Database

/-! ## The two intervals -/

structure Timers where
  hello : Int
  dead : Int

namespace Timers

/-- The dead interval is a multiple of the hello interval, and not shorter. -/
def Coupled (t : Timers) : Prop :=
  t.hello ≤ t.dead ∧ t.hello ∣ t.dead

/-- Coupled intervals that commands can set. -/
structure Lawful (t : Timers) : Prop where
  hello_pos : 0 < t.hello
  hello_le : t.hello ≤ 65535
  dead_pos : 0 < t.dead
  coupled : t.Coupled

/-- A given dead interval is accepted. -/
def Accepts (t : Timers) (interval : Int) : Prop :=
  t.hello ≤ interval ∧ interval.tmod t.hello = 0

instance (t : Timers) (interval : Int) : Decidable (t.Accepts interval) :=
  inferInstanceAs (Decidable (_ ∧ _))

/-- The tests that a given interval has to pass: nothing, or the message by
which a dead interval is refused.  A division by zero has no result. -/
def check (key : IntervalKey) (interval helloInterval : Int) : Option (Option String) :=
  if key ≠ .dead then some none
  else if interval < helloInterval then
    some (some "Dead interval cannot be less than hello interval.")
  else if helloInterval = 0 then none
  else if interval.tmod helloInterval ≠ 0 then
    some (some "Dead interval should be multiple(s) of hello interval.")
  else some none

def store (key : IntervalKey) (interval : Int) (t : Timers) : Timers :=
  match key with
  | .hello => { t with hello := interval }
  | .dead => { t with dead := interval }
  | .retransmit | .transmitDelay => t

/-- An interval is set, unless it is a dead interval that is looked at and not
accepted. -/
def change (checked : Bool) (key : IntervalKey) (interval : Int) (t : Timers) : Timers :=
  if key = .dead ∧ checked ∧ ¬ t.Accepts interval then t
  else t.store key interval

/-- The change keeps the intervals coupled. -/
def Fits (checked : Bool) (key : IntervalKey) (interval : Int) (t : Timers) : Prop :=
  match key with
  | .hello => interval ∣ t.dead
  | .dead => checked ∨ t.hello ∣ interval
  | .retransmit | .transmitDelay => True

/-- With a hello interval the tests refuse what is not accepted. -/
theorem check_spec {t : Timers} (positive : 0 < t.hello) (key : IntervalKey) (interval : Int) :
    (check key interval t.hello = some none ∧ t.change true key interval = t.store key interval) ∨
      ∃ message, check key interval t.hello = some (some message) ∧
        t.change true key interval = t := by
  unfold check change Accepts
  by_cases dead : key = .dead
  · by_cases short : interval < t.hello
    · simp [dead, short]
    · by_cases even : interval.tmod t.hello = 0
      · simp [dead, short, even, positive.ne', not_lt.mp short]
      · simp [dead, short, even, positive.ne']
  · simp [dead]

variable {t : Timers} {checked : Bool} {key : IntervalKey} {interval : Int} (lawful : t.Lawful)
  (positive : 0 < interval)
include lawful positive

theorem coupled_change_iff :
    (t.change checked key interval).Coupled ↔ t.Fits checked key interval := by
  have coupled := lawful.coupled
  cases key with
  | retransmit => exact iff_of_true coupled trivial
  | transmitDelay => exact iff_of_true coupled trivial
  | hello =>
    constructor
    · intro after
      exact after.2
    · intro divides
      exact ⟨Int.le_of_dvd lawful.dead_pos divides, divides⟩
  | dead =>
    unfold change Fits
    by_cases accepts : t.Accepts interval
    · have divides : t.hello ∣ interval := Int.dvd_of_tmod_eq_zero accepts.2
      rw [if_neg (by simp [accepts])]
      exact iff_of_true ⟨accepts.1, divides⟩ (.inr divides)
    · cases checked with
      | true =>
        rw [if_pos ⟨rfl, rfl, accepts⟩]
        exact iff_of_true coupled (.inl rfl)
      | false =>
        have rejected : ¬ t.hello ∣ interval := fun divides =>
          accepts ⟨Int.le_of_dvd positive divides, Int.tmod_eq_zero_of_dvd divides⟩
        rw [if_neg nofun]
        exact iff_of_false (fun after => rejected after.2) (by simp [rejected])

theorem Lawful.change (small : interval ≤ 65535) (fits : t.Fits checked key interval) :
    (t.change checked key interval).Lawful := by
  have coupled := (coupled_change_iff lawful positive).mpr fits
  unfold Timers.change at coupled ⊢
  split
  · exact lawful
  · rename_i stored
    rw [if_neg stored] at coupled
    obtain ⟨lower, upper, dead, _⟩ := lawful
    cases key with
    | hello => exact ⟨positive, small, dead, coupled⟩
    | dead => exact ⟨lower, upper, positive, coupled⟩
    | retransmit => exact ⟨lower, upper, dead, coupled⟩
    | transmitDelay => exact ⟨lower, upper, dead, coupled⟩

end Timers

/-! ## Commands -/

structure Seconds where
  text : CStr
  numeral : isNumeral text
  positive : 0 < digitsValue text
  small : digitsValue text ≤ 65535

theorem Seconds.atoi_text (seconds : Seconds) : atoi seconds.text = digitsValue seconds.text :=
  atoi_numeral seconds.numeral (by have := seconds.small; omega)

/-- A command that sets an interval, or resets it if no seconds are given. -/
structure Setting where
  key : IntervalKey
  seconds : Option Seconds

def defaultOf : IntervalKey → Nat
  | .hello => 10
  | .dead => 4 * 10
  | .retransmit => 5
  | .transmitDelay => 1

variable (setting : Setting)

def Setting.interval : Int :=
  match setting.seconds with
  | none => defaultOf setting.key
  | some seconds => atoi seconds.text

theorem Setting.interval_pos : 0 < setting.interval ∧ setting.interval ≤ 65535 := by
  obtain ⟨key, seconds⟩ := setting
  unfold interval
  cases seconds with
  | none => cases key <;> decide
  | some seconds =>
    have lower := seconds.positive
    have upper := seconds.small
    dsimp only
    rw [seconds.atoi_text]
    omega

/-! ## Interfaces -/

/-- The column `ospf_intervals` of a row of `Port`. -/
abbrev PortRow := List (IntervalKey × Int)

/-- The OSPF interfaces by their names, each with the port it is attached
to. -/
abbrev Interfaces := List (CStr × Option PortRow)

/-- `ospf_get_port_intervals`. -/
def ospfGetPortIntervals (row : PortRow) (key : IntervalKey) : Int :=
  (valueOf key row).getD 0

/-- `ospf_set_port_intervals`. -/
def ospfSetPortIntervals (key : IntervalKey) (interval : Int) (row : PortRow) : PortRow :=
  assign key interval row

/-- `ospf_interval_cmd_execute`; a division by zero has no result. -/
def ospfIntervalCmdExecute (ifname : CStr) (key : IntervalKey)
    (interval : Int) (db : Interfaces) : Option (Reply × Interfaces) :=
  match valueOf ifname db with
  | none => some (aborted "Interface is not present.", db)
  | some none => some (aborted "Interface is not attached to any port.", db)
  | some (some port) =>
    (Timers.check key interval (toInt (ospfGetPortIntervals port .hello))).map fun
    | some message => (aborted message, db)
    | none => (.committed, assign ifname (some (ospfSetPortIntervals key interval port)) db)

structure PortCommand extends Setting where
  ifname : CStr

variable (command : PortCommand)

def PortCommand.step (db : Interfaces) : Option Interfaces :=
  (ospfIntervalCmdExecute command.ifname command.key command.interval db).map Prod.snd

def portTimers (row : PortRow) : Timers :=
  ⟨ospfGetPortIntervals row .hello, ospfGetPortIntervals row .dead⟩

theorem portTimers_set (key : IntervalKey) (interval : Int) (row : PortRow) :
    portTimers (ospfSetPortIntervals key interval row) = (portTimers row).store key interval := by
  cases key <;> simp [portTimers, ospfGetPortIntervals, ospfSetPortIntervals, Timers.store]

def timersOf (name : CStr) (db : Interfaces) : Option Timers :=
  (valueOf name db).bind fun port => port.map portTimers

/-- All ports have such intervals. -/
def Each (such : Timers → Prop) (db : Interfaces) : Prop :=
  ∀ name, ∀ timers ∈ timersOf name db, such timers

def PortCommand.Fits (db : Interfaces) : Prop :=
  ∀ timers ∈ timersOf command.ifname db, timers.Fits true command.key command.interval

theorem PortCommand.step_spec {db : Interfaces} (lawful : Each Timers.Lawful db) :
    ∃ next, command.step db = some next ∧ ∀ name, timersOf name next =
      if command.ifname = name then (timersOf name db).map
        (Timers.change true command.key command.interval)
      else timersOf name db := by
  unfold step ospfIntervalCmdExecute
  have own := lawful command.ifname
  unfold timersOf at own ⊢
  cases found : valueOf command.ifname db with
  | none =>
    refine ⟨db, rfl, fun name => ?_⟩
    split <;> simp_all
  | some attached =>
    cases attached with
    | none =>
      refine ⟨db, rfl, fun name => ?_⟩
      split <;> simp_all
    | some port =>
      rw [found] at own
      obtain ⟨lower, upper, _, _⟩ := own (portTimers port) rfl
      have hello : toInt (portTimers port).hello = (portTimers port).hello :=
        Int.bmod_eq_of_le (by omega) (by omega)
      change toInt (ospfGetPortIntervals port .hello) = _ at hello
      dsimp only
      rw [hello]
      rcases Timers.check_spec lower command.key command.interval with
        ⟨passed, changed⟩ | ⟨message, refused, unchanged⟩
      · rw [passed]
        refine ⟨_, rfl, fun name => ?_⟩
        split <;> simp_all [portTimers_set]
      · rw [refused]
        refine ⟨db, rfl, fun name => ?_⟩
        split <;> simp_all

theorem PortCommand.keeps (db : Interfaces) (lawful : Each Timers.Lawful db)
    (fits : command.Fits db) :
    ∃ next, command.step db = some next ∧ Each Timers.Coupled next ∧ Each Timers.Lawful next := by
  obtain ⟨positive, small⟩ := command.interval_pos
  obtain ⟨next, ran, timers⟩ := command.step_spec lawful
  have after : Each Timers.Lawful next := by
    intro name t held
    rw [timers name] at held
    split at held
    · rename_i own
      obtain ⟨old, stored, rfl⟩ := Option.map_eq_some_iff.mp held
      exact (lawful name old stored).change positive small (fits old (own ▸ stored))
    · exact lawful name t held
  exact ⟨next, ran, fun name t held => (after name t held).coupled, after⟩

theorem PortCommand.fits_of_coupled (db next : Interfaces) (lawful : Each Timers.Lawful db)
    (ran : command.step db = some next) (after : Each Timers.Coupled next) : command.Fits db := by
  intro t held
  obtain ⟨_, ran', timers⟩ := command.step_spec lawful
  cases ran.symm.trans ran'
  apply (Timers.coupled_change_iff (lawful _ t held) command.interval_pos.1).mp
  apply after command.ifname
  rw [timers, if_pos rfl, held]
  rfl

/-! ## Virtual links -/

/-- The column `other_config` of a row of `OSPF_Vlink`. -/
abbrev OtherConfig := List (IntervalKey × CStr)

variable (config : OtherConfig)

/-- `smap_get_int`. -/
def smapGetInt (key : IntervalKey) (default : Int) : Int :=
  ((valueOf key config).map atoi).getD default

/-- `ospf_vlink_set_other_config`: the column that is set, or the message in
front of which the transaction is given up.  A division by zero has no
result. -/
def ospfVlinkSetOtherConfig : Option (Except String OtherConfig) :=
  match setting.seconds with
  | none =>
    some (.ok (assign setting.key (decimal (defaultOf setting.key)) config))
  | some seconds =>
    match Timers.check setting.key (atoi seconds.text)
      (smapGetInt config .hello (defaultOf .hello)) with
    | none => none
    | some (some message) => some (.error message)
    | some none => some (.ok (assign setting.key seconds.text config))

def vlinkStep : Option OtherConfig :=
  (ospfVlinkSetOtherConfig setting config).map fun result => result.toOption.getD config

def vlinkTimers : Timers :=
  ⟨smapGetInt config .hello (defaultOf .hello), smapGetInt config .dead (defaultOf .dead)⟩

theorem vlinkTimers_assign (key : IntervalKey) (text : CStr) (config : OtherConfig) :
    vlinkTimers (assign key text config) = (vlinkTimers config).store key (atoi text) := by
  cases key <;> simp [vlinkTimers, smapGetInt, Timers.store]

theorem vlinkStep_spec {config : OtherConfig} (lawful : (vlinkTimers config).Lawful) :
    ∃ next, vlinkStep setting config = some next ∧
      vlinkTimers next = (vlinkTimers config).change setting.seconds.isSome
        setting.key setting.interval := by
  obtain ⟨key, seconds⟩ := setting
  unfold vlinkStep ospfVlinkSetOtherConfig Setting.interval
  cases seconds with
  | none =>
    refine ⟨_, rfl, (vlinkTimers_assign key _ config).trans ?_⟩
    have read : atoi (decimal (defaultOf key)) = defaultOf key := by
      cases key <;> decide
    rw [read, Timers.change, if_neg nofun]
  | some seconds =>
    rcases Timers.check_spec lawful.hello_pos key (atoi seconds.text) with
      ⟨passed, changed⟩ | ⟨message, refused, unchanged⟩
    · change Timers.check key _ (smapGetInt config .hello _) = _ at passed
      dsimp only
      rw [passed]
      exact ⟨_, rfl, (vlinkTimers_assign key _ config).trans changed.symm⟩
    · change Timers.check key _ (smapGetInt config .hello _) = _ at refused
      dsimp only
      rw [refused]
      exact ⟨config, rfl, unchanged.symm⟩

/-- The command keeps the intervals of a virtual link coupled. -/
def VlinkFits : Prop :=
  (vlinkTimers config).Fits setting.seconds.isSome setting.key setting.interval

theorem vlink_keeps (lawful : (vlinkTimers config).Lawful) (fits : VlinkFits setting config) :
    ∃ next, vlinkStep setting config = some next ∧
      (vlinkTimers next).Coupled ∧ (vlinkTimers next).Lawful := by
  obtain ⟨positive, small⟩ := setting.interval_pos
  obtain ⟨next, ran, timers⟩ := vlinkStep_spec setting lawful
  have after := lawful.change positive small fits
  rw [← timers] at after
  exact ⟨next, ran, after.coupled, after⟩

theorem vlinkFits_of_coupled (config next : OtherConfig)
    (lawful : (vlinkTimers config).Lawful) (ran : vlinkStep setting config = some next)
    (after : (vlinkTimers next).Coupled) : VlinkFits setting config := by
  obtain ⟨_, ran', timers⟩ := vlinkStep_spec setting lawful
  cases ran.symm.trans ran'
  rw [timers] at after
  exact (Timers.coupled_change_iff lawful setting.interval_pos.1).mp after

/-! ## Runs -/

theorem lawful_default : Timers.Lawful ⟨10, 40⟩ :=
  ⟨by decide, by decide, by decide, by decide, by decide⟩

/-- **From the defaults on, the dead intervals stay multiples of the hello
intervals exactly if every hello interval that is set divides the dead interval
at that time, and the dead interval of a virtual link is reset only while the
hello interval divides its default.** -/
theorem intervals_coupled_iff (commands : List PortCommand) {db : Interfaces}
    (initial : Each (· = ⟨10, 40⟩) db) (settings : List Setting) :
    (Throughout PortCommand.step (fun _ _ => Each Timers.Coupled) commands db ↔
      Admitted PortCommand.step PortCommand.Fits commands db) ∧
    (Throughout vlinkStep (fun _ _ next => (vlinkTimers next).Coupled) settings [] ↔
      Admitted vlinkStep VlinkFits settings []) := by
  constructor
  · apply throughout_iff_admitted PortCommand.keeps PortCommand.fits_of_coupled
    intro name t held
    rw [initial name t held]
    exact lawful_default
  · exact throughout_iff_admitted vlink_keeps vlinkFits_of_coupled lawful_default

def defaultPort : Interfaces :=
  [(['1'], some [(.hello, 10), (.dead, 40), (.retransmit, 5), (.transmitDelay, 1)])]

def helloInterval (seconds : Seconds) : PortCommand :=
  ⟨⟨.hello, some seconds⟩, ['1']⟩

/-- Two interfaces with the default intervals, and one without a port. -/
def defaultPorts : Interfaces :=
  defaultPort ++ [(['2'], some [(.hello, 10), (.dead, 40), (.retransmit, 5), (.transmitDelay, 1)]),
    (['3'], none)]

/-- `ip ospf dead-interval 60` and `ip ospf hello-interval 20` on one
interface, and `no ip ospf dead-interval` on another. -/
def threeSettings : List PortCommand :=
  [⟨⟨.dead, some ⟨['6', '0'], by decide, by decide, by decide⟩⟩, ['1']⟩,
    helloInterval ⟨['2', '0'], by decide, by decide, by decide⟩, ⟨⟨.dead, none⟩, ['2']⟩]

theorem hello_twenty_coupled :
    Throughout PortCommand.step (fun _ _ => Each Timers.Coupled) threeSettings defaultPorts := by
  apply (intervals_coupled_iff _ _ []).1.mpr
  · refine ⟨?_, ?_⟩
    · rintro t ⟨⟩
      exact .inl rfl
    rintro first ⟨⟩
    refine ⟨?_, ?_⟩
    · rintro t ⟨⟩
      exact ⟨3, by decide⟩
    rintro second ⟨⟩
    refine ⟨?_, fun _ _ => trivial⟩
    rintro t ⟨⟩
    exact .inl rfl
  · intro name t held
    simp only [timersOf, defaultPorts, defaultPort, List.cons_append, List.nil_append,
      valueOf_cons] at held
    split at held
    · cases held
      rfl
    split at held
    · cases held
      rfl
    split at held <;> cases held

/-- A dead interval of 40 seconds is no multiple of 7 seconds. -/
theorem hello_seven_uncoupled :
    ∃ next, (helloInterval ⟨['7'], by decide, by decide, by decide⟩).step
      defaultPort = some next ∧ ¬ Each Timers.Coupled next := by
  refine ⟨_, rfl, fun coupled => ?_⟩
  exact absurd (coupled ['1'] _ rfl).2 (by decide)

end OpsCli.Ospf.Intervals
