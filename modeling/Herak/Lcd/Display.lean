import Mathlib.Data.List.FinRange
import Mathlib.Logic.Function.Basic
import Herak.Lcd.Driver
import Herak.Support.EventMachine
import Herak.Support.LittleEndian

/-!
# The display module

`lcd.cpp` keeps up to four cells and two icons.  Its setters raise a flag when
they find that something changed, and the display is printed again only when
the module runs with the flag raised.
-/

namespace Herak.Lcd

open BinaryFloat CString LittleEndian Memory

def wifiCharIndex : UInt8 := 0
def mqttCharIndex : UInt8 := 1

/-- `MAX_STRING` -/
def maxString : ℕ := 14

/-- `MAX_CELLS` -/
def maxCells : ℕ := 4

/-- `LCD_BLINK_INERVAL` -/
def lcdBlinkInterval : ℤ := 2

/-- What a cell displays: nothing, or one kind of its data. -/
inductive Display
  | none | text | int | double
  deriving DecidableEq

/-! ## The data of a cell -/

/-- The union `data`: one array of bytes for the three kinds. -/
structure CellData where
  bytes : List UInt8
  size : bytes.length = 16

namespace CellData

def zero : CellData := ⟨List.replicate 16 0, List.length_replicate⟩

/-- The array with some of its bytes written. -/
def write (d : CellData) (off : ℕ) (src : List UInt8)
    (h : off + src.length ≤ 16) : CellData where
  bytes := memcpy d.bytes off src
  size := by rw [length_memcpy (by rwa [d.size]), d.size]

/-- `data.numInt` -/
def numInt (d : CellData) : Int32 :=
  (UInt32.ofNat (ofBytes (d.bytes.take 4))).toInt32

def setNumInt (num : Int32) (d : CellData) : CellData :=
  d.write 0 (toBytes 4 num.toUInt32.toNat) (by rw [length_toBytes]; decide)

/-- `data.numDouble` -/
def numDouble (d : CellData) : Value binary64 :=
  .ofBits binary64 (ofBytes (d.bytes.take 8))

/-- A `double` is stored as the 64 bits of its pattern. -/
def setNumDouble (num : UInt64) (d : CellData) : CellData :=
  d.write 0 (toBytes 8 num.toNat) (by rw [length_toBytes]; decide)

/-- `data.text` -/
def text (d : CellData) : CStr :=
  cstrAt d.bytes 0

/-- The `n` bytes that `strncpy()` writes. -/
def strncpyBytes (src : CStr) (n : ℕ) : List UInt8 :=
  src.take n ++ List.replicate (n - src.length) 0

theorem length_strncpyBytes (src : CStr) (n : ℕ) :
    (strncpyBytes src n).length = n := by
  rw [strncpyBytes, List.length_append, List.length_take, List.length_replicate]
  omega

/-- The copy, and the terminator behind it. -/
def setText (text : CStr) (d : CellData) : CellData :=
  (d.write 0 (strncpyBytes text maxString)
    (by rw [length_strncpyBytes]; decide)).write maxString [0] (by decide)

end CellData

/-! ## The module -/

/-- `lcd_cell` -/
structure LcdCell where
  row : UInt8
  column : ℤ
  display : Display
  data : CellData

/-- `struct lcd_context_t`, with the count of `lcd_refresh()`; `screen` is what
`lcd_print()` sent when it ran last. -/
structure LcdContext where
  wifiOn : Bool
  mqttOn : Bool
  cells : Fin maxCells → LcdCell
  refresh : Bool
  blinkCount : ℤ
  screen : List LcdByte

/-- The state that `lcd_init()` leaves. -/
def lcdInit : LcdContext where
  wifiOn := false
  mqttOn := false
  cells := fun _ => ⟨0, 0, .none, .zero⟩
  refresh := true
  blinkCount := 0
  screen := []

/-- The line of a row. -/
def lineNo (row : ℤ) : Option UInt8 :=
  if row = 0 then some lcdLineNumberOne
  else if row = 1 then some lcdLineNumberTwo
  else none

/-- The checks of `lcd_get_cell()`: the cell and its line. -/
def cellPlace (cell row column : ℤ) : Option (Fin maxCells × UInt8) :=
  if h : cell < 0 ∨ (maxCells : ℤ) ≤ cell ∨ column < 1 ∨ 15 < column then none
  else (lineNo row).map fun line => (⟨cell.toNat, by omega⟩, line)

/-- `lcd_get_cell()` -/
def lcdGetCell (cell row column : ℤ) (ctx : LcdContext) :
    LcdContext × Option (Fin maxCells) :=
  match cellPlace cell row column with
  | none => (ctx, none)
  | some (i, line) =>
      let moved : Bool :=
        (ctx.cells i).column ≠ column ∨ (ctx.cells i).row ≠ line
      ({ ctx with
          refresh := ctx.refresh || moved
          cells := Function.update ctx.cells i
            { ctx.cells i with column := column, row := line } }, some i)

/-- What the setters share: they compare the data of the cell, and store. -/
def lcdSet (display : Display) (differs : CellData → Bool)
    (store : CellData → CellData) (cell row column : ℤ) (ctx : LcdContext) :
    LcdContext × ℤ :=
  let got := lcdGetCell cell row column ctx
  match got.2 with
  | none => (got.1, -1)
  | some i =>
      let old := got.1.cells i
      ({ got.1 with
          refresh := got.1.refresh || (differs old.data || old.display ≠ display)
          cells := Function.update got.1.cells i
            { old with data := store old.data, display := display } }, 0)

def lcdSetInt (cell row column : ℤ) (num : Int32) : LcdContext → LcdContext × ℤ :=
  lcdSet .int (fun d => d.numInt ≠ num) (.setNumInt num) cell row column

def lcdSetDouble (cell row column : ℤ) (num : UInt64) :
    LcdContext → LcdContext × ℤ :=
  lcdSet .double (fun d => !d.numDouble.eq (.ofBits binary64 num.toNat))
    (.setNumDouble num) cell row column

def lcdSetText (cell row column : ℤ) (text : CStr) :
    LcdContext → LcdContext × ℤ :=
  lcdSet .text (fun d => strncmp d.text text maxString ≠ 0) (.setText text)
    cell row column

theorem toNat_lt_maxCells {cell : ℤ}
    (h : ¬(cell < 0 ∨ (maxCells : ℤ) ≤ cell)) : cell.toNat < maxCells := by
  omega

def lcdClearCell (cell : ℤ) (ctx : LcdContext) : LcdContext × ℤ :=
  if h : cell < 0 ∨ (maxCells : ℤ) ≤ cell then (ctx, -1)
  else
    let i : Fin maxCells := ⟨cell.toNat, toNat_lt_maxCells h⟩
    ({ ctx with
        refresh := ctx.refresh || (ctx.cells i).display ≠ .none
        cells := Function.update ctx.cells i
          { ctx.cells i with display := .none } }, 0)

/-! ## Printing -/

/-- The turn of a cell in the loop of `lcd_print()`. -/
def printCell (cell : LcdCell) : List LcdByte :=
  if cell.display = .none then []
  else
    lcdGoto lcd cell.row (UInt8.ofInt cell.column) ++
    match cell.display with
    | .text => lcdSendString cell.data.text
    | .int => printInt cell.data.numInt.toInt
    | .double => printDouble cell.data.numDouble 2
    | .none => []

/-- `lcd_print()` -/
def lcdPrint (ctx : LcdContext) : LcdContext :=
  { ctx with
    screen :=
      lcdClearScreen lcd ++
      (if ctx.wifiOn then
        lcdGoto lcd lcdLineNumberOne 0 ++ lcdPrintCustomChar wifiCharIndex
      else []) ++
      (if ctx.mqttOn then
        lcdGoto lcd lcdLineNumberTwo 0 ++ lcdPrintCustomChar mqttCharIndex
      else []) ++
      (List.finRange maxCells).flatMap fun i => printCell (ctx.cells i)
    refresh := false }

/-- An icon in `lcd_refresh()`, which blinks without a connection: its new
state, and whether the flag is raised. -/
def iconStep (connected : Bool) (blinkCount : ℤ) (on : Bool) : Bool × Bool :=
  if connected then (true, !on)
  else if blinkCount.tmod lcdBlinkInterval = 0 then (!on, true)
  else (on, false)

/-- The icon of MQTT, which is there only with `HAVE_SYS_MQTT`. -/
def mqttIconStep (haveMqtt connected : Bool) (blinkCount : ℤ) (on : Bool) :
    Bool × Bool :=
  if haveMqtt then iconStep connected blinkCount on else (on, false)

/-- `lcd_refresh()` up to the test of the flag. -/
def lcdIcons (haveMqtt wifi mqtt : Bool) (ctx : LcdContext) : LcdContext :=
  let wifiIcon := iconStep wifi ctx.blinkCount ctx.wifiOn
  let mqttIcon := mqttIconStep haveMqtt mqtt ctx.blinkCount ctx.mqttOn
  { ctx with
    wifiOn := wifiIcon.1
    mqttOn := mqttIcon.1
    refresh := ctx.refresh || wifiIcon.2 || mqttIcon.2
    blinkCount := CInt.toInt32 (ctx.blinkCount + 1) }

/-- `lcd_refresh()` -/
def lcdRefresh (haveMqtt wifi mqtt : Bool) (ctx : LcdContext) : LcdContext :=
  let ctx := lcdIcons haveMqtt wifi mqtt ctx
  if ctx.refresh then lcdPrint ctx else ctx

/-! ## Runs -/

/-- What happens to the module.  The text of a setter is a C string. -/
inductive LcdEvent
  | setInt (cell row column : ℤ) (num : Int32)
  | setDouble (cell row column : ℤ) (num : UInt64)
  | setText (cell row column : ℤ) (text : { s : CStr // 0 ∉ s })
  | clearCell (cell : ℤ)
  | refresh (wifi mqtt : Bool)

def lcdStep (haveMqtt : Bool) (ctx : LcdContext) : LcdEvent → LcdContext
  | .setInt cell row column num => (lcdSetInt cell row column num ctx).1
  | .setDouble cell row column num => (lcdSetDouble cell row column num ctx).1
  | .setText cell row column text => (lcdSetText cell row column text.1 ctx).1
  | .clearCell cell => (lcdClearCell cell ctx).1
  | .refresh wifi mqtt => lcdRefresh haveMqtt wifi mqtt ctx

/-- The module, which everything may happen to at any time. -/
def lcdMachine (haveMqtt : Bool) : EventMachine LcdContext LcdEvent where
  step := lcdStep haveMqtt
  enabled := fun _ _ => True

end Herak.Lcd
