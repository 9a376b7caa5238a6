import Bacula.Library.TokenBucket

/-! The bandwidth limiter of `lib/bwlimit.c`. Times are in microseconds and the counters are not
bounded; the rates are exact, and a cast to an integer cuts towards zero. -/
namespace Bacula.Bwlimit
open Function (update)

/-- number of microseconds in a second -/
def oneSec : ℤ := 1000000

abbrev sampleCapacity : ℕ := 10

instance : NeZero sampleCapacity := ⟨by decide⟩

/-- don't handle more backlog than this -/
def backlogLimit : ℤ := 10 * 1000 * 1000

/-- One entry of the tables, with `samples_time`, `samples_byte` and `samples_sleep` side by side. -/
structure Sample where
  time : ℤ
  byte : ℤ
  sleep : ℤ
  deriving DecidableEq, Repr

def Sample.zero : Sample := ⟨0, 0, 0⟩

def Sample.add (a b : Sample) : Sample := ⟨a.time + b.time, a.byte + b.byte, a.sleep + b.sleep⟩

def Sample.sub (a b : Sample) : Sample := ⟨a.time - b.time, a.byte - b.byte, a.sleep - b.sleep⟩

structure Samples where
  table : Fin sampleCapacity → Sample
  total : Sample
  current : Sample
  currentSample : Fin sampleCapacity

/-- `reset_sample` leaves `current_time` and `current_sleep` as they are. -/
def Samples.reset (s : Samples) : Samples :=
  { table := fun _ => .zero, total := .zero, current := { s.current with byte := 0 },
    currentSample := 0 }

/-- `push_sample` -/
def Samples.push (s : Samples) (t bytes sleep : ℤ) : Samples :=
  let current := s.current.add ⟨t, bytes, sleep⟩
  if current.time > oneSec then
    { table := update s.table s.currentSample current
      total := (s.total.sub (s.table s.currentSample)).add current
      current := .zero
      currentSample := s.currentSample + 1 } -- modulo the capacity
  else { s with current := current }

/-- `get_total` -/
def Samples.getTotal (s : Samples) : Sample := s.total.add s.current

structure Limiter where
  /-- set to limit bandwidth -/
  bwlimit : ℤ
  /-- bytes sent/recv since the last tick -/
  nbBytes : ℤ
  /-- last tick used by bwlimit -/
  lastTick : ℤ
  samples : Samples

/-- The constructor; what it leaves unset is zero. -/
def init (speed : ℤ) : Limiter :=
  { bwlimit := speed, nbBytes := 0, lastTick := 0
    samples := { table := fun _ => .zero, total := .zero, current := .zero, currentSample := 0 } }

/-- A cast to `int64_t`. -/
def truncate (q : ℚ) : ℤ := q.num.tdiv q.den

/-- What can be sent in a microsecond. -/
def Limiter.rate (l : Limiter) : ℚ := l.bwlimit / oneSec

/-- `control_bwlimit` at the time `now`, with how long it sleeps. -/
def controlBwlimit (l : Limiter) (bytes : ℕ) (now : ℤ) : Limiter × ℤ :=
  if bytes = 0 ∨ l.bwlimit = 0 then (l, 0)
  else
    let temp := now - l.lastTick
    -- take care of clock problems (>10s) or back in time
    if temp < 0 ∨ temp > backlogLimit then
      ({ l with nbBytes := bytes, lastTick := now, samples := l.samples.reset }, 0)
    else
      -- remove what has been consumed
      let nbBytes := l.nbBytes - bytes
      -- less than 0.1ms since the last call, see the next time
      if temp < 100 then
        ({ l with nbBytes := nbBytes, samples := l.samples.push temp bytes 0 }, 0)
      else
        let nbBytes := nbBytes + truncate (temp * l.rate)
        let l := { l with nbBytes := nbBytes, lastTick := now }
        if nbBytes > backlogLimit * l.bwlimit then
          ({ l with nbBytes := backlogLimit * l.bwlimit, samples := l.samples.push temp bytes 0 }, 0)
        else if nbBytes < 0 then
          -- what exceeds should be converted in sleep time
          let usecSleep := truncate (-nbBytes / l.rate)
          let usecSleep := if usecSleep > 100 then min usecSleep (60 * oneSec) else 0
          ({ l with samples := l.samples.push temp bytes usecSleep }, usecSleep)
        else (l, 0)

/-- A call and the time at which it is made. -/
structure Call where
  bytes : ℕ
  now : ℤ
  deriving DecidableEq, Repr

def total (calls : List Call) : ℕ := (calls.map Call.bytes).sum

/-- The limiter and the clock: a call is not made before the clock, and a sleep advances it. -/
structure State where
  limiter : Limiter
  clock : ℤ

def State.call (s : State) (c : Call) : State :=
  let (limiter, sleep) := controlBwlimit s.limiter c.bytes c.now
  ⟨limiter, c.now + sleep⟩

def State.calls (s : State) (calls : List Call) : State := calls.foldl State.call s

def Timed : State → List Call → Prop
  | _, [] => True
  | s, c :: calls => s.clock ≤ c.now ∧ Timed (s.call c) calls

instance Timed.decide : (s : State) → (calls : List Call) → Decidable (Timed s calls)
  | _, [] => .isTrue trivial
  | s, c :: calls =>
      have := Timed.decide (s.call c) calls
      inferInstanceAs (Decidable (s.clock ≤ c.now ∧ Timed (s.call c) calls))

end Bacula.Bwlimit
