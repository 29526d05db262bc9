import Mathlib.Data.List.Sort
import Herak.Sht20.Checksum

/-!
# SHT20 sensors

`sht20_sensor_get_data` of `sht20.c` reads five samples of the temperature and
then five of the humidity.  After the last sample of a quantity it computes the
four values that are published, and asks for a message if one of them is new.
The arithmetic of `float` and `double` and the functions of the C library are
parameters.
-/

namespace Herak.Sht20

/-- `SHT20_RET_IN_PROGRESS` -/
def retInProgress : ℤ := 1

/-- `SHT20_DATA_COUNT` -/
def sht20DataCount : ℕ := 5

/-- `SHT0_MEASURE_DELAY_MS` -/
def measureDelayMs : UInt64 := 100

/-- The arithmetic of the two types; `lit n k` is the literal `n / 10 ^ k`, and
`ne` the comparison of two `float` values. -/
structure CArithmetic (Float Double : Type*) where
  zero : Float
  ne : Float → Float → Bool
  floatOfNat : ℕ → Float
  floatSub : Float → Float → Float
  floatMul : Float → Float → Float
  floatDiv : Float → Float → Float
  toDouble : Float → Double
  toFloat : Double → Float
  ofNat : ℕ → Double
  lit : ℤ → ℕ → Double
  add : Double → Double → Double
  sub : Double → Double → Double
  mul : Double → Double → Double
  div : Double → Double → Double
  exp : Double → Double
  log : Double → Double

variable {Float Double : Type*}

namespace CArithmetic

variable (a : CArithmetic Float Double)

/-- `raw * (175.72 / 65536.0)-46.85` -/
def temperature (raw : ℕ) : Float :=
  a.toFloat (a.sub (a.mul (a.ofNat raw) (a.div (a.lit 17572 2) (a.lit 655360 1)))
    (a.lit 4685 2))

/-- `raw * (125.0 / 65536.0) - 6.0` -/
def humidity (raw : ℕ) : Float :=
  a.toFloat (a.sub (a.mul (a.ofNat raw) (a.div (a.lit 1250 1) (a.lit 655360 1)))
    (a.lit 60 1))

/-- The vapor pressure deficit. -/
def vpd (temperature humidity : Float) : Float :=
  let t := a.toDouble temperature
  let f1 := a.toFloat (a.mul (a.lit 6108 4)
    (a.exp (a.div (a.mul (a.lit 1727 2) t) (a.add t (a.lit 2373 1)))))
  let f2 := a.floatMul (a.floatDiv humidity (a.floatOfNat 100)) f1
  a.floatSub f1 f2

def dewPoint (temperature humidity : Float) : Float :=
  let f1 := a.toFloat (a.mul (a.lit (-10) 1) (a.toDouble temperature))
  let f2 := a.toFloat (a.mul (a.lit 6112 3)
    (a.exp (a.div (a.mul (a.mul (a.lit (-10) 1) (a.lit 1767 2)) (a.toDouble f1))
      (a.sub (a.lit 2435 1) (a.toDouble f1)))))
  let f1 := a.toFloat (a.mul (a.div (a.toDouble humidity) (a.lit 1000 1))
    (a.toDouble f2))
  let f2 := a.toFloat (a.log (a.div (a.toDouble f1) (a.lit 6112 3)))
  a.toFloat (a.div (a.mul (a.lit (-2435) 1) (a.toDouble f2))
    (a.sub (a.toDouble f2) (a.lit 1767 2)))

end CArithmetic

/-- `read_cmd` -/
inductive ReadCmd
  | temp
  | humid
  deriving DecidableEq

/-- What the message of a sensor reports: a value that is not valid is `nan`. -/
structure Sht20Report (Float : Type*) where
  temperature : Option Float
  humidity : Option Float
  vpd : Option Float
  dewPoint : Option Float
  deriving DecidableEq

/-- `sht20_sensor`, with what its last published message reports.  `rawData`
has the samples up to `raw_idx`, and `compForce` is the flag of the component
that the message belongs to. -/
structure Sht20Sensor (Float : Type*) where
  rawData : List ℕ
  temperature : Float
  validT : Bool
  humidity : Float
  validH : Bool
  vpd : Float
  dewPoint : Float
  force : Bool
  readCmd : ReadCmd
  readRequested : UInt64
  compForce : Bool
  lastReport : Sht20Report Float

namespace Sht20Sensor

def report (s : Sht20Sensor Float) : Sht20Report Float where
  temperature := if s.validT then some s.temperature else none
  humidity := if s.validH then some s.humidity else none
  vpd := if s.validT && s.validH then some s.vpd else none
  dewPoint := if s.validT && s.validH then some s.dewPoint else none

end Sht20Sensor

/-- `samples_filter`: the mean without the largest and the smallest samples. -/
def samplesFilter (samples : List ℕ) (totalCount filterCount : ℕ) : ℕ :=
  ((((samples.insertionSort (· ≤ ·)).drop filterCount).take
    (totalCount - 2 * filterCount)).sum) / (totalCount - 2 * filterCount)

/-- What a call of `sht20_sensor_get_data` reads and is answered: the time, the
bytes of the sensor if it sends all three, and the time of the next request if
that is written. -/
structure ReadInput where
  now : UInt64
  reply : Option (UInt8 × UInt8 × UInt8)
  requested : Option UInt64

section Read

variable (a : CArithmetic Float Double)

/-- `if (field != data) { force = true; field = data; }` -/
def store (force : Bool) (field data : Float) : Bool × Float :=
  if a.ne field data then (true, data) else (force, field)

/-- `if (raw_idx < SHT20_DATA_COUNT) raw_data[raw_idx++] = raw;` -/
def addSample (rawData : List ℕ) (raw : ℕ) : List ℕ :=
  if rawData.length < sht20DataCount then rawData ++ [raw] else rawData

/-- The error path at `out`. -/
def readFailed (s : Sht20Sensor Float) : ℤ × Sht20Sensor Float :=
  match s.readCmd with
  | .temp => (retErr, { s with rawData := [], validT := false })
  | .humid => (retErr, { s with rawData := [], validH := false })

/-- The quantity of the last sample. -/
def storeQuantity (s : Sht20Sensor Float) (raw : ℕ) : Sht20Sensor Float :=
  match s.readCmd with
  | .temp =>
      let new := store a s.force s.temperature (a.temperature raw)
      { s with
        force := new.1
        temperature := new.2
        validT := true
        readCmd := .humid }
  | .humid =>
      let new := store a s.force s.humidity (a.humidity raw)
      { s with
        force := new.1
        humidity := new.2
        validH := true
        readCmd := .temp }

/-- The values that are computed from both quantities. -/
def storeDerived (s : Sht20Sensor Float) : Sht20Sensor Float :=
  let new := store a s.force s.vpd (a.vpd s.temperature s.humidity)
  let s := { s with force := new.1, vpd := new.2 }
  let new := store a s.force s.dewPoint (a.dewPoint s.temperature s.humidity)
  { s with force := new.1, dewPoint := new.2 }

/-- `sht20_sensor_get_data` -/
def sht20SensorGetData (s : Sht20Sensor Float) (input : ReadInput) :
    ℤ × Sht20Sensor Float :=
  if input.now - s.readRequested < measureDelayMs then (retInProgress, s)
  else
    let s := { s with readRequested := 0 }
    match input.reply with
    | none => readFailed s
    | some (b0, b1, b2) =>
        if sht20CheckCrc [b0, b1, b2] 2 b2 ≠ some retOk then readFailed s
        else
          let raw := (b0.toNat <<< 8) + b1.toNat
          let s := { s with rawData := addSample s.rawData raw }
          if s.rawData.length < sht20DataCount then
            match input.requested with
            | none => readFailed s
            | some time => (retInProgress, { s with readRequested := time })
          else
            let raw := samplesFilter s.rawData sht20DataCount 1
            let s := { s with rawData := [] }
            (retOk, storeDerived a (storeQuantity a s raw))

end Read

end Herak.Sht20
