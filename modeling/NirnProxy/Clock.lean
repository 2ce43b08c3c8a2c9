import Mathlib.Data.Int.Notation

/-! Instants and durations are integers, in nanoseconds.  Instants are counted from Go's zero
`time.Time`, so a limiter that was never blocked is ready at `zeroTime`. -/

namespace NirnProxy

def zeroTime : Int := 0

namespace Duration

def millisecond : Int := 1000000

def second : Int := 1000 * millisecond

theorem second_eq : second = 1000000000 := rfl

def minute : Int := 60 * second

def hour : Int := 60 * minute

end Duration

def unixEpoch : Int := 62135596800 * Duration.second

/-- `time.Time.UnixNano`, which wraps around outside the years it can represent. -/
def unixNano (now : Int) : Int := (BitVec.ofInt 64 (now - unixEpoch)).toInt

end NirnProxy
