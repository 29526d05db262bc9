import Mathlib.Data.Int.Basic
import Herak.Support.CInt
import Herak.Support.Decimal
import Herak.Support.FloatArithmetic

/-!
# The display driver

`HD44780_LCD_PCF8574.cpp` and `HD44780_LCD_PCF8574_Print.cpp` as far as the
module uses them: every function is the bytes that it sends to the display.
-/

namespace Herak.Lcd

open BinaryFloat CString

/-- A byte to the display: a command, or a character at the cursor. -/
inductive LcdByte
  | cmd (c : UInt8)
  | data (d : UInt8)
  deriving DecidableEq

/-- `HD44780LCD`, with the size that `PCF8574_LCDInit()` sets. -/
structure Hd44780Lcd where
  numRowsLcd : ℕ
  numColsLcd : ℕ

/-- The display of the module. -/
def lcd : Hd44780Lcd := ⟨2, 16⟩

/-! ## Lines -/

def lcdLineNumberOne : UInt8 := 1
def lcdLineNumberTwo : UInt8 := 2
def lcdLineNumberThree : UInt8 := 3
def lcdLineNumberFour : UInt8 := 4

def lcdLineAddressOne : UInt8 := 0x80
def lcdLineAddressTwo : UInt8 := 0xC0
def lcdLineAddress3Col20 : UInt8 := 0x94
def lcdLineAddress4Col20 : UInt8 := 0xD4
def lcdLineAddress3Col16 : UInt8 := 0x90
def lcdLineAddress4Col16 : UInt8 := 0xD0

/-- The switch over the width, for the third line and the fourth. -/
def sendByCols (dev : Hd44780Lcd) (col16 col20 : UInt8) : List LcdByte :=
  if dev.numColsLcd = 16 then [.cmd col16]
  else if dev.numColsLcd = 20 then [.cmd col20]
  else []

/-- `PCF8574_LCDClearLine()` -/
def lcdClearLine (dev : Hd44780Lcd) (lineNo : UInt8) : List LcdByte :=
  (if lineNo = lcdLineNumberOne then [.cmd lcdLineAddressOne]
    else if lineNo = lcdLineNumberTwo then [.cmd lcdLineAddressTwo]
    else if lineNo = lcdLineNumberThree then
      sendByCols dev lcdLineAddress3Col16 lcdLineAddress3Col20
    else if lineNo = lcdLineNumberFour then
      sendByCols dev lcdLineAddress4Col16 lcdLineAddress4Col20
    else []) ++
  List.replicate dev.numColsLcd (.data 32)

/-- `PCF8574_LCDClearScreen()` -/
def lcdClearScreen (dev : Hd44780Lcd) : List LcdByte :=
  if dev.numRowsLcd < 1 ∨ 4 < dev.numRowsLcd then []
  else
    lcdClearLine dev lcdLineNumberOne ++
    (if 2 ≤ dev.numRowsLcd then lcdClearLine dev lcdLineNumberTwo else []) ++
    (if 3 ≤ dev.numRowsLcd then lcdClearLine dev lcdLineNumberThree else []) ++
    (if dev.numRowsLcd = 4 then lcdClearLine dev lcdLineNumberFour else [])

/-- `PCF8574_LCDGOTO()` -/
def lcdGoto (dev : Hd44780Lcd) (line col : UInt8) : List LcdByte :=
  if line = lcdLineNumberOne then [.cmd (lcdLineAddressOne ||| col)]
  else if line = lcdLineNumberTwo then [.cmd (lcdLineAddressTwo ||| col)]
  else if line = lcdLineNumberThree then
    sendByCols dev (lcdLineAddress3Col16 ||| col) (lcdLineAddress3Col20 + col)
  else if line = lcdLineNumberFour then
    sendByCols dev (lcdLineAddress4Col16 ||| col) (lcdLineAddress4Col20 + col)
  else []

/-! ## Characters -/

/-- `PCF8574_LCDSendString()` -/
def lcdSendString (str : CStr) : List LcdByte :=
  str.map .data

/-- `PCF8574_LCDPrintCustomChar()` -/
def lcdPrintCustomChar (location : UInt8) : List LcdByte :=
  if 8 ≤ location then [] else [.data location]

/-! ## Numbers -/

/-- A step of the loop of `printNumber()` puts a digit in front. -/
def putDigits (base : ℕ) : (room : ℕ) → ℕ → CStr → CStr
  | 0, _, str => str
  | room + 1, n, str =>
      let c := n % base
      let str := UInt8.ofNat (if c < 10 then c + 48 else c + 65 - 10) :: str
      if n / base = 0 then str else putDigits base room (n / base) str

/-- `Print::printNumber()`, with a buffer for the digits of base 2. -/
def printNumber (n base : ℕ) : CStr :=
  putDigits (if base < 2 then 10 else base) 32 n []

/-- `Print::print(long, base)` -/
def printLong (n : ℤ) (base : ℕ) : CStr :=
  if base = 0 then [UInt8.ofInt n]
  else if base = 10 then
    if n < 0 then 45 :: printNumber (CInt.toUInt32 (-n)) 10
    else printNumber (CInt.toUInt32 n) 10
  else printNumber (CInt.toUInt32 n) base

/-- `rounding` of `Print::printFloat()` -/
def rounding : (digits : ℕ) → Value binary64
  | 0 => ofFrac binary64 1 2
  | digits + 1 => (rounding digits).div (ofFrac binary64 10 1)

/-- The loop of `Print::printFloat()` over the digits of the remainder. -/
def printRemainder : (digits : ℕ) → Value binary64 → CStr
  | 0, _ => []
  | digits + 1, remainder =>
      let remainder := remainder.mul (ofFrac binary64 10 1)
      let toPrint := remainder.toUInt32
      printNumber toPrint 10 ++
        printRemainder digits (remainder.sub (ofFrac binary64 toPrint 1))

/-- `Print::printFloat()` -/
def printFloat (number : Value binary64) (digits : ℕ) : CStr :=
  if number.isNan then lit "nan"
  else if number.isInf then lit "inf"
  else if (ofFrac binary64 4294967040 1).lt number then lit "ovf"
  else if number.lt (ofFrac binary64 (-4294967040) 1) then lit "ovf"
  else
    let negative := number.lt (Value.zero binary64)
    let number := if negative then number.neg else number
    let number := number.add (rounding digits)
    let intPart := number.toUInt32
    let remainder := number.sub (ofFrac binary64 intPart 1)
    (if negative then [45] else []) ++ printNumber intPart 10 ++
      (if 0 < digits then [46] else []) ++ printRemainder digits remainder

/-- The rounding of the source's own comment. -/
example : printFloat (ofFrac binary64 1999 1000) 2 = lit "2.00" := by
  decide +kernel

/-- `print(int)`, which writes every character with `PCF8574_LCDSendChar()`. -/
def printInt (n : ℤ) : List LcdByte :=
  lcdSendString (printLong n 10)

/-- `print(double, digits)` -/
def printDouble (number : Value binary64) (digits : ℕ) : List LcdByte :=
  lcdSendString (printFloat number digits)

/-! ## Decimal texts -/

theorem putDigits_ten {room n : ℕ} (hn : n < 10 ^ room) (hpos : 0 < room)
    (str : CStr) : putDigits 10 room n str = decimal n ++ str := by
  induction room generalizing n str with
  | zero => cases hpos
  | succ room ih =>
      have hdigit : UInt8.ofNat (if n % 10 < 10 then n % 10 + 48
          else n % 10 + 65 - 10) = digit (n % 10) := by
        rw [if_pos (Nat.mod_lt n (by decide)), digit, Nat.add_comm]
      rw [putDigits, hdigit, decimal_eq n]
      by_cases hsmall : n < 10
      · rw [if_pos (Nat.div_eq_of_lt hsmall), if_pos hsmall]
        rfl
      · have hrest : n / 10 < 10 ^ room := by
          rw [Nat.pow_succ] at hn
          exact Nat.div_lt_of_lt_mul (by rwa [Nat.mul_comm])
        have hroom : 0 < room := by
          rcases Nat.eq_zero_or_pos room with rfl | h
          · omega
          · exact h
        rw [if_neg (by omega), if_neg hsmall, ih hrest hroom,
          List.append_assoc]
        rfl

/-- The digits of a number of 32 bits fit the buffer. -/
theorem printNumber_ten {n : ℕ} (hn : n < 2 ^ 32) :
    printNumber n 10 = decimal n := by
  rw [printNumber, if_neg (by decide), putDigits_ten (by omega) (by decide),
    List.append_nil]

/-- The number is shown as `%d` prints it, also the least one. -/
theorem printLong_ten {n : ℤ} (hlo : -2 ^ 31 ≤ n) (hhi : n < 2 ^ 31) :
    printLong n 10 = decimalInt n := by
  rw [printLong, if_neg (by decide), if_pos rfl, decimalInt]
  by_cases hneg : n < 0
  · have habs : CInt.toUInt32 (-n) = n.natAbs := by
      have := CInt.toUInt32_of_range (x := -n) (by omega) (by omega)
      omega
    rw [if_pos hneg, if_pos hneg, habs, printNumber_ten (by omega)]
    rfl
  · have habs : CInt.toUInt32 n = n.natAbs := by
      have := CInt.toUInt32_of_range (x := n) (by omega) (by omega)
      omega
    rw [if_neg hneg, if_neg hneg, habs, printNumber_ten (by omega)]

end Herak.Lcd
