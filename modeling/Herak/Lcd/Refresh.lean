import Herak.Lcd.Display
import Herak.Support.BoundedPrint

/-!
# The refresh flag

What the display is for is a panel: two icons, and what the callers put into
the cells.  The module keeps the panel in unions and prints it only when the
flag is raised.  While the flag is down, the screen that was printed last is
the panel of now.
-/

namespace Herak.Lcd

open BinaryFloat CString LittleEndian Memory

/-! ## The panel -/

/-- What a cell shows. -/
inductive Item
  | text (s : CStr)
  | int (num : Int32)
  | double (num : Value binary64)

/-- An item at its place. -/
structure Shown where
  row : UInt8
  column : ℤ
  item : Item

/-- The contents of the display. -/
structure Panel where
  wifiOn : Bool
  mqttOn : Bool
  blinkCount : ℤ
  cells : Fin maxCells → Option Shown

/-- An item on the display. -/
def Item.render : Item → List LcdByte
  | .text s => lcdSendString s
  | .int num => lcdSendString (decimalInt num.toInt)
  | .double num => printDouble num 2

/-- A cell on the display, behind the command for its place. -/
def Shown.render (c : Shown) : List LcdByte :=
  lcdGoto lcd c.row (UInt8.ofInt c.column) ++ c.item.render

/-- An icon on the display, at the start of its line. -/
def renderIcon (on : Bool) (line location : UInt8) : List LcdByte :=
  if on then lcdGoto lcd line 0 ++ lcdPrintCustomChar location else []

namespace Panel

/-- The blank display with the icons and the cells on it. -/
def render (p : Panel) : List LcdByte :=
  lcdClearScreen lcd ++
  renderIcon p.wifiOn lcdLineNumberOne wifiCharIndex ++
  renderIcon p.mqttOn lcdLineNumberTwo mqttCharIndex ++
  (List.finRange maxCells).flatMap fun i =>
    ((p.cells i).map Shown.render).getD []

def init : Panel where
  wifiOn := false
  mqttOn := false
  blinkCount := 0
  cells := fun _ => none

/-- A caller puts an item into a cell; a place that does not exist is
ignored. -/
def put (cell row column : ℤ) (item : Item) (p : Panel) : Panel :=
  match cellPlace cell row column with
  | none => p
  | some (i, line) =>
      { p with cells := Function.update p.cells i (some ⟨line, column, item⟩) }

/-- A caller clears a cell. -/
def clear (cell : ℤ) (p : Panel) : Panel :=
  if h : cell < 0 ∨ (maxCells : ℤ) ≤ cell then p
  else
    { p with
      cells := Function.update p.cells ⟨cell.toNat, toNat_lt_maxCells h⟩ none }

/-- The icons follow the connections. -/
def tick (haveMqtt wifi mqtt : Bool) (p : Panel) : Panel :=
  { p with
    wifiOn := (iconStep wifi p.blinkCount p.wifiOn).1
    mqttOn := (mqttIconStep haveMqtt mqtt p.blinkCount p.mqttOn).1
    blinkCount := CInt.toInt32 (p.blinkCount + 1) }

def step (haveMqtt : Bool) (p : Panel) : LcdEvent → Panel
  | .setInt cell row column num => p.put cell row column (.int num)
  | .setDouble cell row column num =>
      p.put cell row column (.double (.ofBits binary64 num.toNat))
  | .setText cell row column text =>
      p.put cell row column (.text (text.1.take maxString))
  | .clearCell cell => p.clear cell
  | .refresh wifi mqtt => p.tick haveMqtt wifi mqtt

/-- The panel without flag and screen. -/
def machine (haveMqtt : Bool) : EventMachine Panel LcdEvent where
  step := step haveMqtt
  enabled := fun _ _ => True

end Panel

/-! ## What the unions hold -/

/-- The data of a cell by the kind that it displays. -/
def CellData.item (d : CellData) : Display → Option Item
  | .none => none
  | .text => some (.text d.text)
  | .int => some (.int d.numInt)
  | .double => some (.double d.numDouble)

def LcdCell.shown (c : LcdCell) : Option Shown :=
  (c.data.item c.display).map fun item => ⟨c.row, c.column, item⟩

/-- The current cells and icons. -/
def LcdContext.panel (ctx : LcdContext) : Panel where
  wifiOn := ctx.wifiOn
  mqttOn := ctx.mqttOn
  blinkCount := ctx.blinkCount
  cells := fun i => (ctx.cells i).shown

namespace CellData

theorem numInt_setNumInt (num : Int32) (d : CellData) :
    (d.setNumInt num).numInt = num := by
  have hfits : num.toUInt32.toNat < 256 ^ 4 := num.toUInt32.toNat_lt
  rw [numInt, setNumInt, write, ofBytes_take_memcpy hfits]
  simp

theorem numDouble_setNumDouble (num : UInt64) (d : CellData) :
    (d.setNumDouble num).numDouble = .ofBits binary64 num.toNat := by
  have hfits : num.toNat < 256 ^ 8 := num.toNat_lt
  rw [numDouble, setNumDouble, write, ofBytes_take_memcpy hfits]

/-- The text is kept up to the size of the array. -/
theorem text_setText {text : CStr} (h : 0 ∉ text) (d : CellData) :
    (d.setText text).text = text.take maxString := by
  have hcopy : (memcpy d.bytes 0 (strncpyBytes text maxString)).take maxString =
      strncpyBytes text maxString := by
    have htake : (memcpy d.bytes 0 (strncpyBytes text maxString)).take
        (0 + (strncpyBytes text maxString).length) =
          d.bytes.take 0 ++ strncpyBytes text maxString :=
      take_memcpy (Nat.zero_le d.bytes.length)
    rwa [length_strncpyBytes, Nat.zero_add, List.take_zero,
      List.nil_append] at htake
  -- The padding and the terminator start with a NUL in any case.
  have hpad : ∀ k, List.replicate k (0 : UInt8) ++ [0] =
      [0] ++ List.replicate k 0 := fun k => by
    rw [← List.replicate_succ', List.replicate_succ, List.singleton_append]
  have hprefix : snprintf (maxString + 1) text ++ [0] <+:
      (d.setText text).bytes := by
    have hbytes : (d.setText text).bytes =
        memcpy (memcpy d.bytes 0 (strncpyBytes text maxString)) maxString [0] :=
      rfl
    rw [hbytes, memcpy, hcopy, strncpyBytes,
      List.append_assoc (text.take maxString), hpad]
    simp only [snprintf, Nat.add_sub_cancel, List.append_assoc]
    exact List.prefix_append_right_inj _ |>.mpr (List.prefix_append _ _)
  exact BoundedPrint.PrintArray.cstrAt_of_prefix hprefix h

end CellData

/-! ## The setters -/

section

variable {display : Display} {differs : CellData → Bool}
  {store : CellData → CellData} {cell row column : ℤ} {ctx : LcdContext}
  {item : Item}

theorem lcdSet_none (h : cellPlace cell row column = none) :
    (lcdSet display differs store cell row column ctx).1 = ctx := by
  simp [lcdSet, lcdGetCell, h]

theorem lcdSet_some {i : Fin maxCells} {line : UInt8}
    (h : cellPlace cell row column = some (i, line)) :
    (lcdSet display differs store cell row column ctx).1 =
      { ctx with
        refresh := (ctx.refresh ||
            decide ((ctx.cells i).column ≠ column ∨ (ctx.cells i).row ≠ line)) ||
          (differs (ctx.cells i).data || (ctx.cells i).display ≠ display)
        cells := Function.update ctx.cells i
          ⟨line, column, display, store (ctx.cells i).data⟩ } := by
  simp [lcdSet, lcdGetCell, h]

/-- A setter puts its item on the panel. -/
theorem panel_lcdSet (hstore : ∀ d, (store d).item display = some item) :
    (lcdSet display differs store cell row column ctx).1.panel =
      ctx.panel.put cell row column item := by
  cases h : cellPlace cell row column with
  | none => rw [lcdSet_none h, Panel.put, h]
  | some place =>
      obtain ⟨i, line⟩ := place
      have hshown : (LcdCell.mk line column display
          (store (ctx.cells i).data)).shown = some ⟨line, column, item⟩ := by
        rw [LcdCell.shown, hstore, Option.map_some]
      have hcells := Function.comp_update LcdCell.shown ctx.cells i
        ⟨line, column, display, store (ctx.cells i).data⟩
      rw [hshown] at hcells
      rw [lcdSet_some h, Panel.put, h]
      exact congrArg (Panel.mk _ _ _) hcells

/-- Putting what is there changes nothing. -/
theorem Panel.put_self {p : Panel} {i : Fin maxCells} {line : UInt8}
    (h : cellPlace cell row column = some (i, line))
    (hcell : p.cells i = some ⟨line, column, item⟩) :
    p.put cell row column item = p := by
  rw [Panel.put, h]
  show { p with cells := Function.update p.cells i _ } = p
  rw [← hcell, Function.update_eq_self]

end

/-- Clearing takes the cell from the panel. -/
theorem panel_lcdClearCell (cell : ℤ) (ctx : LcdContext) :
    (lcdClearCell cell ctx).1.panel = ctx.panel.clear cell := by
  rw [lcdClearCell, Panel.clear]
  split
  · rfl
  · exact congrArg (Panel.mk _ _ _) (Function.comp_update LcdCell.shown _ _ _)

theorem lcdClearCell_of_not {cell : ℤ} {ctx : LcdContext}
    (h : cell < 0 ∨ (maxCells : ℤ) ≤ cell) : (lcdClearCell cell ctx).1 = ctx := by
  rw [lcdClearCell, dif_pos h]

theorem lcdClearCell_of {cell : ℤ} {ctx : LcdContext}
    (h : ¬(cell < 0 ∨ (maxCells : ℤ) ≤ cell)) :
    (lcdClearCell cell ctx).1 =
      { ctx with
        refresh := ctx.refresh ||
          (ctx.cells ⟨cell.toNat, toNat_lt_maxCells h⟩).display ≠ .none
        cells := Function.update ctx.cells ⟨cell.toNat, toNat_lt_maxCells h⟩
          { ctx.cells ⟨cell.toNat, toNat_lt_maxCells h⟩ with
            display := .none } } := by
  rw [lcdClearCell, dif_neg h]

theorem Panel.clear_self {p : Panel} {cell : ℤ}
    (h : ¬(cell < 0 ∨ (maxCells : ℤ) ≤ cell))
    (hcell : p.cells ⟨cell.toNat, toNat_lt_maxCells h⟩ = none) :
    p.clear cell = p := by
  rw [Panel.clear, dif_neg h]
  show { p with cells := Function.update p.cells _ _ } = p
  rw [← hcell, Function.update_eq_self]

/-! ## Printing -/

theorem printCell_eq (c : LcdCell) :
    printCell c = (c.shown.map Shown.render).getD [] := by
  obtain ⟨row, column, display, data⟩ := c
  cases display with
  | none => rfl
  | text => rfl
  | int =>
      have hlo : -2 ^ 31 ≤ data.numInt.toInt := Int32.le_toInt _
      have hhi : data.numInt.toInt < 2 ^ 31 := Int32.toInt_lt _
      have hprint : printInt data.numInt.toInt =
          lcdSendString (decimalInt data.numInt.toInt) := by
        rw [printInt, printLong_ten hlo hhi]
      simp [printCell, LcdCell.shown, CellData.item, Shown.render, Item.render,
        hprint]
  | double => rfl

/-- `lcd_print()` renders the panel. -/
theorem lcdPrint_screen (ctx : LcdContext) :
    (lcdPrint ctx).screen = ctx.panel.render := by
  simp only [lcdPrint, printCell_eq]
  rfl

/-- An icon that does not raise the flag stays as it is. -/
theorem iconStep_of_false {connected on : Bool} {blinkCount : ℤ}
    (h : (iconStep connected blinkCount on).2 = false) :
    (iconStep connected blinkCount on).1 = on := by
  cases connected with
  | true =>
      cases on with
      | true => rfl
      | false => cases h
  | false =>
      by_cases hblink : blinkCount.tmod lcdBlinkInterval = 0
      · simp [iconStep, hblink] at h
      · simp [iconStep, hblink]

theorem mqttIconStep_of_false {haveMqtt connected on : Bool} {blinkCount : ℤ}
    (h : (mqttIconStep haveMqtt connected blinkCount on).2 = false) :
    (mqttIconStep haveMqtt connected blinkCount on).1 = on := by
  rw [mqttIconStep] at h ⊢
  cases haveMqtt with
  | true => exact iconStep_of_false h
  | false => rfl

theorem panel_lcdRefresh (haveMqtt wifi mqtt : Bool) (ctx : LcdContext) :
    (lcdRefresh haveMqtt wifi mqtt ctx).panel =
      ctx.panel.tick haveMqtt wifi mqtt := by
  rw [lcdRefresh]
  split <;> rfl

/-- The module never leaves the flag raised. -/
theorem lcdRefresh_refresh (haveMqtt wifi mqtt : Bool) (ctx : LcdContext) :
    (lcdRefresh haveMqtt wifi mqtt ctx).refresh = false := by
  rw [lcdRefresh]
  split
  · rfl
  next hquiet => exact Bool.eq_false_of_not_eq_true hquiet

/-- The module prints, or the icons are as they were. -/
theorem lcdRefresh_screen {ctx : LcdContext} (haveMqtt wifi mqtt : Bool)
    (h : ctx.refresh = false → ctx.screen = ctx.panel.render) :
    (lcdRefresh haveMqtt wifi mqtt ctx).screen =
      (ctx.panel.tick haveMqtt wifi mqtt).render := by
  rw [lcdRefresh]
  split
  · exact lcdPrint_screen _
  next hquiet =>
    have hflag := Bool.eq_false_of_not_eq_true hquiet
    simp only [lcdIcons, Bool.or_eq_false_iff] at hflag
    obtain ⟨⟨hold, hwifi⟩, hmqtt⟩ := hflag
    have hwifiOn := iconStep_of_false hwifi
    have hmqttOn := mqttIconStep_of_false hmqtt
    calc
      ctx.screen = ctx.panel.render := h hold
      _ = Panel.render
          { ctx.panel with
            wifiOn := (iconStep wifi ctx.blinkCount ctx.wifiOn).1
            mqttOn :=
              (mqttIconStep haveMqtt mqtt ctx.blinkCount ctx.mqttOn).1 } := by
        rw [hwifiOn, hmqttOn]
        rfl
      _ = (ctx.panel.tick haveMqtt wifi mqtt).render := rfl

/-! ## The module follows the panel -/

theorem panel_lcdInit : lcdInit.panel = Panel.init := rfl

theorem panel_lcdStep (haveMqtt : Bool) (ctx : LcdContext) (e : LcdEvent) :
    (lcdStep haveMqtt ctx e).panel = Panel.step haveMqtt ctx.panel e := by
  cases e with
  | setInt cell row column num =>
      exact panel_lcdSet fun d =>
        congrArg (some ∘ Item.int) (d.numInt_setNumInt num)
  | setDouble cell row column num =>
      exact panel_lcdSet fun d =>
        congrArg (some ∘ Item.double) (d.numDouble_setNumDouble num)
  | setText cell row column text =>
      exact panel_lcdSet fun d =>
        congrArg (some ∘ Item.text) (d.text_setText text.2)
  | clearCell cell => exact panel_lcdClearCell cell ctx
  | refresh wifi mqtt => exact panel_lcdRefresh haveMqtt wifi mqtt ctx

theorem panel_run (haveMqtt : Bool) (ctx : LcdContext) (es : List LcdEvent) :
    ((lcdMachine haveMqtt).run ctx es).panel =
      (Panel.machine haveMqtt).run ctx.panel es := by
  induction es generalizing ctx with
  | nil => rfl
  | cons e es ih =>
      rw [EventMachine.run_cons, EventMachine.run_cons, ih]
      exact congrArg (fun p => (Panel.machine haveMqtt).run p es)
        (panel_lcdStep haveMqtt ctx e)

/-! ## The flag -/

/-- A text is no longer than its array. -/
def Item.Fits : Item → Prop
  | .text s => s.length ≤ maxString
  | _ => True

namespace Panel

/-- The texts on the panel fit their arrays. -/
def Fits (p : Panel) : Prop :=
  ∀ i c, p.cells i = some c → c.item.Fits

theorem Fits.update {p : Panel} (h : p.Fits) (i : Fin maxCells)
    {c : Option Shown} (hc : ∀ s, c = some s → s.item.Fits) :
    Fits { p with cells := Function.update p.cells i c } := by
  intro j s hs
  by_cases hj : j = i
  · subst hj
    exact hc s ((Function.update_self j c p.cells).symm.trans hs)
  · exact h j s ((Function.update_of_ne hj c p.cells).symm.trans hs)

theorem Fits.put {p : Panel} (h : p.Fits) (cell row column : ℤ) {item : Item}
    (hitem : item.Fits) : (p.put cell row column item).Fits := by
  rw [Panel.put]
  split
  · exact h
  · refine h.update _ fun s hs => ?_
    obtain rfl := Option.some.inj hs
    exact hitem

theorem Fits.clear {p : Panel} (h : p.Fits) (cell : ℤ) : (p.clear cell).Fits := by
  rw [Panel.clear]
  split
  · exact h
  · refine h.update _ fun s hs => ?_
    cases hs

end Panel

/-- With the flag down the screen is the panel. -/
structure Current (ctx : LcdContext) : Prop where
  fits : ctx.panel.Fits
  screen : ctx.refresh = false → ctx.screen = ctx.panel.render

theorem current_lcdInit : Current lcdInit where
  fits := by
    intro i c h
    cases h
  screen := by
    intro h
    cases h

/-- What is in a cell that fits. -/
theorem Current.item_fits {ctx : LcdContext} (h : Current ctx)
    (i : Fin maxCells) {item : Item}
    (hitem : (ctx.cells i).data.item (ctx.cells i).display = some item) :
    item.Fits := by
  have hcell : ctx.panel.cells i =
      some ⟨(ctx.cells i).row, (ctx.cells i).column, item⟩ :=
    congrArg (Option.map _) hitem
  exact h.fits i _ hcell

section

variable {display : Display} {differs : CellData → Bool}
  {store : CellData → CellData} {cell row column : ℤ} {ctx : LcdContext}
  {item : Item}

/-- A setter that compares well raises the flag when it has to. -/
theorem Current.lcdSet (h : Current ctx) (hitem : item.Fits)
    (hstore : ∀ d, (store d).item display = some item)
    (hsame : ∀ d, (∀ old, d.item display = some old → old.Fits) →
      differs d = false → d.item display = some item) :
    Current (lcdSet display differs store cell row column ctx).1 := by
  have hpanel : (Lcd.lcdSet display differs store cell row column ctx).1.panel =
      ctx.panel.put cell row column item := panel_lcdSet hstore
  constructor
  · rw [hpanel]
    exact h.fits.put cell row column hitem
  · rw [hpanel]
    cases hplace : cellPlace cell row column with
    | none =>
        rw [lcdSet_none hplace, Panel.put, hplace]
        exact h.screen
    | some place =>
        obtain ⟨i, line⟩ := place
        rw [lcdSet_some hplace]
        intro hdown
        simp only [Bool.or_eq_false_iff, decide_eq_false_iff_not, not_or,
          not_not] at hdown
        obtain ⟨⟨hold, hcolumn, hrow⟩, hdiffers, hdisplay⟩ := hdown
        -- The cell has the item already, at the same place.
        have hkept := hsame (ctx.cells i).data
          (fun old hold => h.item_fits i (hdisplay ▸ hold)) hdiffers
        have hcell : ctx.panel.cells i = some ⟨line, column, item⟩ := by
          show (ctx.cells i).shown = _
          rw [LcdCell.shown, hdisplay, hkept, hcolumn, hrow, Option.map_some]
        rw [Panel.put_self hplace hcell]
        exact h.screen hold

end

theorem Current.lcdSetInt {ctx : LcdContext} (h : Current ctx)
    (cell row column : ℤ) (num : Int32) :
    Current (lcdSetInt cell row column num ctx).1 := by
  refine h.lcdSet (show Item.Fits (.int num) from trivial)
    (fun d => congrArg (some ∘ Item.int) (d.numInt_setNumInt num)) ?_
  intro d _ hsame
  have hnum : d.numInt = num := of_not_not (of_decide_eq_false hsame)
  exact congrArg (some ∘ Item.int) hnum

/-- Values that compare equal look the same: the two zeros do, and NaN raises
the flag whenever it is set. -/
theorem Current.lcdSetDouble {ctx : LcdContext} (h : Current ctx)
    (cell row column : ℤ) (num : UInt64) :
    Current (lcdSetDouble cell row column num ctx).1 := by
  refine h.lcdSet
    (show Item.Fits (.double (.ofBits binary64 num.toNat)) from trivial)
    (fun d => congrArg (some ∘ Item.double) (d.numDouble_setNumDouble num)) ?_
  intro d _ hsame
  have heq : d.numDouble.eq (.ofBits binary64 num.toNat) = true := by
    rwa [Bool.not_eq_false'] at hsame
  exact congrArg (some ∘ Item.double) (Value.eq_of_eq heq)

/-- Texts that agree in front are cut to the same text. -/
theorem Current.lcdSetText {ctx : LcdContext} (h : Current ctx)
    (cell row column : ℤ) {text : CStr} (htext : 0 ∉ text) :
    Current (lcdSetText cell row column text ctx).1 := by
  have hcut : Item.Fits (.text (text.take maxString)) :=
    List.length_take_le maxString text
  refine h.lcdSet hcut
    (fun d => congrArg (some ∘ Item.text) (d.text_setText htext)) ?_
  intro d hfits hsame
  have hcmp : strncmp d.text text maxString = 0 :=
    of_not_not (of_decide_eq_false hsame)
  have hlen : d.text.length ≤ maxString := hfits _ rfl
  have htake := (strncmp_eq_zero_iff _ _ _).mp hcmp
  rw [List.take_of_length_le hlen] at htake
  exact congrArg (some ∘ Item.text) htake

theorem Current.lcdClearCell {ctx : LcdContext} (h : Current ctx) (cell : ℤ) :
    Current (lcdClearCell cell ctx).1 := by
  constructor
  · rw [panel_lcdClearCell]
    exact h.fits.clear cell
  · rw [panel_lcdClearCell]
    by_cases hcell : cell < 0 ∨ (maxCells : ℤ) ≤ cell
    · rw [lcdClearCell_of_not hcell, Panel.clear, dif_pos hcell]
      exact h.screen
    · rw [lcdClearCell_of hcell]
      intro hdown
      simp only [Bool.or_eq_false_iff, decide_eq_false_iff_not,
        not_not] at hdown
      obtain ⟨hold, hdisplay⟩ := hdown
      have hnone : ctx.panel.cells ⟨cell.toNat, toNat_lt_maxCells hcell⟩ =
          none := by
        show (ctx.cells _).shown = _
        rw [LcdCell.shown, hdisplay]
        rfl
      rw [Panel.clear_self hcell hnone]
      exact h.screen hold

/-- The module prints, or nothing has changed since it did. -/
theorem Current.lcdRefresh {ctx : LcdContext} (h : Current ctx)
    (haveMqtt wifi mqtt : Bool) :
    Current (lcdRefresh haveMqtt wifi mqtt ctx) := by
  constructor
  · rw [panel_lcdRefresh]
    exact h.fits
  · rw [panel_lcdRefresh]
    intro _
    exact lcdRefresh_screen haveMqtt wifi mqtt h.screen

/-- Every step keeps the screen current. -/
theorem Current.step {ctx : LcdContext} (h : Current ctx) (haveMqtt : Bool)
    (e : LcdEvent) : Current (lcdStep haveMqtt ctx e) := by
  cases e with
  | setInt cell row column num => exact h.lcdSetInt cell row column num
  | setDouble cell row column num => exact h.lcdSetDouble cell row column num
  | setText cell row column text => exact h.lcdSetText cell row column text.2
  | clearCell cell => exact h.lcdClearCell cell
  | refresh wifi mqtt => exact h.lcdRefresh haveMqtt wifi mqtt

theorem current_run (haveMqtt : Bool) (es : List LcdEvent) :
    Current ((lcdMachine haveMqtt).run lcdInit es) :=
  EventMachine.invariant (I := Current)
    (fun _ e h => h.step haveMqtt e) current_lcdInit es

/-- After every sequence of calls and runs: with the flag down, the screen that
was printed last renders the current cells and icons. -/
theorem screen_eq_render (haveMqtt : Bool) (es : List LcdEvent)
    (h : ((lcdMachine haveMqtt).run lcdInit es).refresh = false) :
    ((lcdMachine haveMqtt).run lcdInit es).screen =
      ((lcdMachine haveMqtt).run lcdInit es).panel.render :=
  (current_run haveMqtt es).screen h

/-- A temperature that is set a second time is not printed again. -/
theorem screen_eq_render_twice :
    let es : List LcdEvent :=
      [.setInt 0 0 2 21, .refresh true true, .setInt 0 0 2 21]
    ((lcdMachine true).run lcdInit es).screen =
      ((lcdMachine true).run lcdInit es).panel.render :=
  screen_eq_render true _ (by decide)

/-- Whenever the module has run, the screen renders what the callers have put
into the cells. -/
theorem screen_after_refresh (haveMqtt wifi mqtt : Bool) (es : List LcdEvent) :
    ((lcdMachine haveMqtt).run lcdInit (es ++ [.refresh wifi mqtt])).screen =
      ((Panel.machine haveMqtt).run Panel.init
        (es ++ [.refresh wifi mqtt])).render := by
  have hdown : ((lcdMachine haveMqtt).run lcdInit
      (es ++ [.refresh wifi mqtt])).refresh = false := by
    rw [EventMachine.run_append]
    exact lcdRefresh_refresh haveMqtt wifi mqtt _
  have hscreen := (current_run haveMqtt (es ++ [.refresh wifi mqtt])).screen hdown
  rwa [panel_run, panel_lcdInit] at hscreen

end Herak.Lcd
