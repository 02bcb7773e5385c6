/-
The terminal of the firmware on the LCD of the application.

The screen that is meant has a cursor and a character in each cell; a
text is written from the cursor on, and `print_str_line` then skips 64
cells, so that the next text begins a line below the end of this one,
not below its start (`Screen.print`). The LCD shows this screen as long
as the texts fit in it (`terminal_shown`).

The blue screen is not shown: the device has a byte for each pixel where
the firmware stores four, and the loop runs over the end of its array
(`blue_screen_overruns`).
-/
import T89Emu.Firmware.Proofs.Guest
import T89Emu.Firmware.Terminal
import T89Emu.Gui.LcdDisplay

namespace T89Emu

open Bytes Cpp

namespace Firmware

-- ================================================ statement vocabulary

/-- The number of cells. -/
def CELLS : Nat := TEXT_WIDTH.toNat * TEXT_HEIGHT.toNat

/-- A call of `print_str`, or of `print_str_line`. -/
structure Print where
  str : List (BitVec 8)
  len : Nat
  endsLine : Bool

def Print.run (p : Print) {L : Layout} (t : Terminal L) :
    Guest (Terminal L) :=
  if p.endsLine then printStrLine p.str p.len t else printStr p.str p.len t

/-- The screen that is meant. -/
structure Screen where
  cursor : Nat
  cells : Nat → BitVec 8

namespace Screen

/-- The text buffer as it is, the cursor in front. -/
def of (s : Mcu .linker) : Screen where
  cursor := 0
  cells i := (s.mem .video).get (16 + i)

def print (sc : Screen) (p : Print) : Screen where
  cursor := sc.cursor + p.len + if p.endsLine then 64 else 0
  cells i :=
    if sc.cursor ≤ i ∧ i < sc.cursor + p.len then
      p.str.getD (i - sc.cursor) 0
    else sc.cells i

/-- Each of the texts has its length and fits in the cells. -/
def Fits : Screen → List Print → Prop
  | _, [] => True
  | sc, p :: ps => p.len ≤ p.str.length ∧ sc.cursor + p.len ≤ CELLS
      ∧ (sc.print p).Fits ps

/-- The lines of the LCD. -/
def lines (sc : Screen) : List (List (Eval (BitVec 8))) :=
  (List.range TEXT_HEIGHT.toNat).map fun i =>
    (List.range TEXT_WIDTH.toNat).map fun j =>
      let c := sc.cells (TEXT_WIDTH.toNat * i + j)
      .ok (if c = 0 then 0x20 else c)

end Screen

/-- The cursor of the terminal and the text buffer are those of the
screen. -/
structure Shows (t : Terminal .linker) (sc : Screen) : Prop where
  cursor : t.1.cursorIndex = sc.cursor
  cells : ∀ i < CELLS, (t.2.mem .video).get (16 + i) = sc.cells i

-- ============================================================ the texts

theorem cells_lt_size : 16 + CELLS ≤ VIDEO_SIZE.toNat := by decide

/-- A character at the cursor. -/
theorem putChar_eq {str : List (BitVec 8)} {idx c : Nat}
    (s : Mcu .linker) (hidx : idx < str.length) (hc : c < CELLS) :
    putChar str (⟨c⟩, s) idx
      = .ok (⟨(c + 1 : Nat)⟩,
          fillMem s .video (16 + c) 1 fun _ => str.getD idx 0) := by
  have hcells : CELLS = 1344 := by decide
  have hsize := cells_lt_size
  have haddr : TEXT_BUFFER + BitVec.ofInt 32 (c : Int)
      = Layout.linker.address .video (16 + c) := by
    show VRAM_START + 16 + _ = VIDEO_BASE + _
    rw [BitVec.ofInt_natCast, BitVec.ofNat_add, ← BitVec.add_assoc]
    rfl
  have hstore := store_place (s := s) (k := .video) (o := 16 + c)
    (.inl rfl) (by decide) (show 16 + c + 1 ≤ VIDEO_SIZE.toNat by omega)
    (Nat.mod_one _) ((str.getD idx 0).setWidth 32)
  have hbyte : ∀ j < 1, byteOf ((str.getD idx 0).setWidth 32) j
      = str.getD idx 0 := by
    intro j hj
    obtain rfl : j = 0 := by omega
    refine (byteOf_setWidth (w := 4) _ (by decide)).trans ?_
    exact BitVec.extractLsb'_eq_self
  have hadvance : TerminalState.advance ⟨c⟩ 1 = .ok ⟨(c + 1 : Nat)⟩ :=
    if_pos (show (c : Int) + 1 < 2 ^ 31 by omega)
  unfold putChar
  rw [List.getElem?_eq_getElem hidx]
  dsimp only
  rw [hadvance, ok_bind, haddr]
  rw [List.getD_eq_getElem _ _ hidx] at hstore hbyte ⊢
  rw [hstore, ok_bind, fillMem_congr _ _ _ hbyte]

/-- A text, from the cursor on. -/
theorem foldlM_putChar {str : List (BitVec 8)} {n c : Nat}
    (s : Mcu .linker) (hn : n ≤ str.length) (hc : c + n ≤ CELLS) :
    (List.range n).foldlM (putChar str) (⟨c⟩, s)
      = .ok (⟨(c + n : Nat)⟩,
          fillMem s .video (16 + c) n fun j => str.getD j 0) := by
  induction n with
  | zero =>
      rw [fillMem_zero]
      rfl
  | succ n ih =>
      have hlast : ∀ j < 1, str.getD n 0 = str.getD (n + j) 0 := by
        intro j hj
        rw [show n + j = n by omega]
      rw [List.range_succ, List.foldlM_append, ih (by omega) (by omega),
        ok_bind, List.foldlM_cons, putChar_eq _ (by omega) (by omega),
        ok_bind, fillMem_congr _ _ _ hlast, ← Nat.add_assoc,
        fillMem_fillMem]
      rfl

variable {t : Terminal .linker} {sc : Screen}

/-- A call writes what is meant, and leaves the mode of the display. -/
theorem Shows.print (h : Shows t sc) {p : Print}
    (hlen : p.len ≤ p.str.length) (hfits : sc.cursor + p.len ≤ CELLS) :
    ∃ t', p.run t = .ok t' ∧ Shows t' (sc.print p)
      ∧ (t'.2.mem .video).get 0 = (t.2.mem .video).get 0 := by
  obtain ⟨⟨cursorIndex⟩, s⟩ := t
  obtain rfl : cursorIndex = (sc.cursor : Int) := h.cursor
  have hcells : CELLS = 1344 := by decide
  have hsize : 16 + CELLS ≤ (Layout.linker.device .video).deviceSize.toNat :=
    cells_lt_size
  let s' := fillMem s .video (16 + sc.cursor) p.len fun j => p.str.getD j 0
  have htext : printStr p.str p.len (⟨sc.cursor⟩, s)
      = .ok (⟨(sc.cursor + p.len : Nat)⟩, s') := foldlM_putChar s hlen hfits
  have hmem : ∀ i < CELLS,
      (s'.mem .video).get (16 + i) = (sc.print p).cells i := by
    intro i hi
    show _ = if sc.cursor ≤ i ∧ i < sc.cursor + p.len then _ else _
    rw [fillMem_self]
    split
    · next hin =>
      rw [Buffer.get_fill_of_mem _ _ (by omega) (by omega),
        Nat.add_sub_add_left]
    · next hout =>
      rw [Buffer.get_fill_of_not_mem _ _ (by omega)]
      exact h.cells i hi
  have hmode : (s'.mem .video).get 0 = (s.mem .video).get 0 := by
    rw [fillMem_self, Buffer.get_fill_of_not_mem _ _ (.inl (by omega))]
  unfold Print.run
  cases hline : p.endsLine with
  | false =>
      refine ⟨_, htext, ⟨?_, hmem⟩, hmode⟩
      show ((sc.cursor + p.len : Nat) : Int)
        = ((sc.cursor + p.len + if p.endsLine then 64 else 0 : Nat) : Int)
      rw [hline]
      rfl
  | true =>
      have hadvance : TerminalState.advance ⟨(sc.cursor + p.len : Nat)⟩ 64
          = .ok ⟨((sc.cursor + p.len : Nat) : Int) + 64⟩ := if_pos (by
        show ((sc.cursor + p.len : Nat) : Int) + 64 < 2 ^ 31
        omega)
      refine ⟨(⟨((sc.cursor + p.len : Nat) : Int) + 64⟩, s'), ?_,
        ⟨?_, hmem⟩, hmode⟩
      · show printStrLine p.str p.len (⟨sc.cursor⟩, s) = _
        unfold printStrLine
        rw [htext, ok_bind]
        dsimp only
        rw [hadvance]
        rfl
      · show ((sc.cursor + p.len : Nat) : Int) + 64
          = ((sc.cursor + p.len + if p.endsLine then 64 else 0 : Nat) : Int)
        rw [hline, if_pos rfl, Int.natCast_add _ 64]
        rfl

-- =========================================================== the display

/-- In text mode the LCD shows the screen. -/
theorem Shows.display (h : Shows t sc)
    (hmode : (t.2.mem .video).get 0 = 1) :
    Gui.renderLcdDisplay (Gui.vramProbe t.2.mem) = .text sc.lines := by
  have hsize : 16 + CELLS ≤ (Layout.linker.device .video).deviceSize.toNat :=
    cells_lt_size
  have hvideo : Gui.videoMode (Gui.vramProbe t.2.mem)
      = Gui.VGA_TEXT_MODE := by
    rw [Buffer.get_of_lt _ (by decide)] at hmode
    exact congrArg (BitVec.setWidth 32) hmode
  unfold Gui.renderLcdDisplay
  rw [if_pos hvideo]
  refine congrArg Gui.Display.text
    (List.map_congr_left fun i hi => List.map_congr_left fun j hj => ?_)
  have hin : TEXT_WIDTH.toNat * i + j < CELLS := by
    have hi : i < 21 := List.mem_range.1 hi
    have hj : j < 64 := List.mem_range.1 hj
    show 64 * i + j < 64 * 21
    omega
  have hcell := h.cells _ hin
  rw [← Nat.add_assoc, Buffer.get_of_lt _ (by omega)] at hcell
  have hbyte : Gui.byteAt (Gui.vramProbe t.2.mem)
      (16 + TEXT_WIDTH.toNat * i + j)
        = .ok (sc.cells (TEXT_WIDTH.toNat * i + j)) :=
    (dif_pos (show _ < (Layout.linker.device .video).deviceSize.toNat by
      omega)).trans (congrArg Except.ok hcell)
  unfold Gui.lineStr
  rw [hbyte]
  rfl

/-- A run of calls, on a display in any mode. -/
theorem Shows.prints {ps : List Print} :
    ∀ {t : Terminal .linker} {sc : Screen}, Shows t sc → sc.Fits ps →
      ∃ t', ps.foldlM (fun t p => p.run t) t = .ok t'
        ∧ Shows t' (ps.foldl Screen.print sc)
        ∧ (t'.2.mem .video).get 0 = (t.2.mem .video).get 0 := by
  induction ps with
  | nil => exact fun h _ => ⟨_, rfl, h, rfl⟩
  | cons p ps ih =>
      intro t sc h hfits
      obtain ⟨t₁, hrun, h₁, hmode₁⟩ := h.print hfits.1 hfits.2.1
      obtain ⟨t', hruns, h', hmode'⟩ := ih h₁ hfits.2.2
      refine ⟨t', ?_, h', hmode'.trans hmode₁⟩
      rw [List.foldlM_cons, hrun]
      exact hruns

/-- The text mode comes on, and the text buffer stays. -/
theorem enableTextMode_eq (s : Mcu .linker) :
    enableTextMode (initTerminal s)
      = .ok (⟨0⟩, fillMem s .video 0 1 (byteOf (1 : U32))) := by
  have hstore := store_place (s := s) (k := .video) (o := 0) (.inl rfl)
    (by decide) (by decide) (by decide) 1
  unfold enableTextMode
  exact (congrArg (· >>= _) hstore).trans rfl

/-- Whatever the machine was doing, from `init_terminal` and
`enable_text_mode` on the LCD shows the screen that is meant, behind
every run of texts that fit in it. -/
theorem terminal_shown (s : Mcu .linker) (ps : List Print)
    (hfits : (Screen.of s).Fits ps) :
    ∃ t t', enableTextMode (initTerminal s) = .ok t
      ∧ ps.foldlM (fun t p => p.run t) t = .ok t'
      ∧ t'.1.cursorIndex = (ps.foldl Screen.print (Screen.of s)).cursor
      ∧ Gui.renderLcdDisplay (Gui.vramProbe t'.2.mem)
        = .text (ps.foldl Screen.print (Screen.of s)).lines := by
  have hcells := cells_lt_size
  have hshows : Shows (⟨0⟩, fillMem s .video 0 1 (byteOf (1 : U32)))
      (Screen.of s) := by
    refine ⟨rfl, fun i hi => ?_⟩
    rw [fillMem_self, Buffer.get_fill_of_not_mem _ _ (.inr (by omega))]
    rfl
  obtain ⟨t', hrun, h', hmode⟩ := hshows.prints hfits
  refine ⟨_, t', enableTextMode_eq s, hrun, h'.cursor,
    h'.display (hmode.trans ?_)⟩
  rw [fillMem_self, Buffer.get_fill_of_mem _ _ (by omega) (by decide)]
  rfl

/-- The texts of `kernel_main`: the second begins a line below the end of
the first, at cell 77. -/
theorem kernel_main_shown :
    ∃ t, kernelMain (.program []) = .ok t
      ∧ Gui.renderLcdDisplay (Gui.vramProbe t.2.mem)
        = .text (Screen.lines ⟨89, fun i =>
            if 77 ≤ i ∧ i < 89 then (literal "Hello World!").getD (i - 77) 0
            else if i < 13 then (literal "Terminal Init").getD i 0
            else 0⟩) := by
  obtain ⟨t, t', hmode, hrun, -, hlcd⟩ := terminal_shown (.program [])
    [⟨literal "Terminal Init", 13, true⟩, ⟨literal "Hello World!", 12, false⟩]
    ⟨by decide, by decide, by decide, by decide, trivial⟩
  obtain ⟨t₁, hline, hrest⟩ := bind_eq_ok.1 hrun
  obtain ⟨t₂, hstr, hlast⟩ := bind_eq_ok.1 hrest
  cases hlast
  have hkernel : kernelMain (.program []) = .ok t' := by
    unfold kernelMain
    dsimp only
    rw [hmode, ok_bind]
    exact (congrArg (· >>= _) hline).trans hstr
  refine ⟨t', hkernel, hlcd.trans (congrArg _ (congrArg _ ?_))⟩
  refine congrArg (Screen.mk 89) (funext fun i => ?_)
  have hblank : (Screen.of (.program [])).cells i = 0 := by
    show (if h : _ then (0 : BitVec 8) else 0) = 0
    split
    · rfl
    · rfl
  show (if 77 ≤ i ∧ i < 89 then _ else if 0 ≤ i ∧ i < 0 + 13 then _ else _) = _
  rw [hblank]
  by_cases hlow : i < 13
  · rw [if_neg (by omega), if_pos (by omega), if_neg (by omega), if_pos hlow]
    rfl
  · rw [if_neg (show ¬ (0 ≤ i ∧ i < 0 + 13) by omega), if_neg hlow]
    rfl

-- ======================================================= the blue screen

/-- A pixel of the firmware takes four bytes, one pixel after another. -/
theorem paint_eq {idx : Nat} (s : Mcu .linker)
    (h : 4 * idx + 4 ≤ PIXEL_MAX) :
    paint s idx
      = .ok (fillMem s .video (1360 + 4 * idx) 4 (byteOf BLUE_SCREEN)) := by
  have hpixel : PIXEL_MAX = 147456 := rfl
  rw [← store_place isAccessSize_word (by decide)
    (show 1360 + 4 * idx + 4 ≤ 148816 by omega)
    (show (1360 + 4 * idx) % 4 = 0 by omega)]
  refine congrArg (store s · BLUE_SCREEN WORD) ?_
  show VRAM_START + 1360 + _ = VIDEO_BASE + _
  rw [BitVec.ofNat_add, BitVec.ofNat_mul, ← BitVec.add_assoc]
  rfl

theorem foldlM_paint {n : Nat} (s : Mcu .linker) (h : 4 * n ≤ PIXEL_MAX) :
    (List.range n).foldlM paint s
      = .ok (fillMem s .video 1360 (4 * n)
          fun j => byteOf BLUE_SCREEN (j % 4)) := by
  induction n with
  | zero =>
      rw [Nat.mul_zero, fillMem_zero]
      rfl
  | succ n ih =>
      have hpixel : ∀ j < 4, byteOf BLUE_SCREEN j
          = byteOf BLUE_SCREEN ((4 * n + j) % 4) := by
        intro j hj
        rw [Nat.mul_add_mod, Nat.mod_eq_of_lt hj]
      rw [List.range_succ, List.foldlM_append, ih (by omega), ok_bind,
        List.foldlM_cons, paint_eq _ (by omega), ok_bind,
        fillMem_congr _ _ _ hpixel,
        fillMem_fillMem s .video 1360 (4 * n) 4
          fun j => byteOf BLUE_SCREEN (j % 4)]
      rfl

/-- Behind the last byte the bus still finds the device. -/
theorem paint_end (s : Mcu .linker) :
    paint s (PIXEL_MAX / 4) = .error (.halt (.undefined .outOfBounds)) := by
  have hwrite : s.busWrite
      (GRAPHICS_BUFF + 4 * BitVec.ofNat 32 (PIXEL_MAX / 4)) BLUE_SCREEN WORD
        = .error .outOfBounds := by
    have hsel : Mcu.bus.select Layout.linker.device
        (GRAPHICS_BUFF + 4 * BitVec.ofNat 32 (PIXEL_MAX / 4))
          = some .video := by decide
    unfold Mcu.busWrite
    rw [Bus.write_of_select hsel,
      MemoryDevice.write_eq (by decide) isAccessSize_word (by decide),
      MemoryDevice.storeAt_of_lt (by decide)]
    rfl
  unfold paint store
  rw [hwrite]

/-- `init_blue_screen` never comes to its end. It fills the pixel buffer
with a quarter of the pixels, so the LCD reads the colour at each of
these, and the next store leaves the array of the device. -/
theorem blue_screen_overruns (s : Mcu .linker) :
    (∃ t, (List.range (PIXEL_MAX / 4)).foldlM paint s = .ok t
      ∧ ∀ pixel < PIXEL_MAX / 4, ∀ channel < 4,
        Gui.texel (Gui.vramProbe t.mem) pixel channel
          = .ok (byteOf BLUE_SCREEN channel))
      ∧ initBlueScreen s = .error (.halt (.undefined .outOfBounds)) := by
  have hmax : PIXEL_MAX = PIXEL_MAX / 4 + (PIXEL_MAX / 4 * 3 - 1 + 1) := rfl
  have hpaint := foldlM_paint (n := PIXEL_MAX / 4) s (by decide)
  refine ⟨⟨_, hpaint, fun pixel hp channel hc => ?_⟩, ?_⟩
  · have hquarter : PIXEL_MAX / 4 = 36864 := rfl
    have hin : 1360 + (4 * pixel + channel)
        < (Layout.linker.device .video).deviceSize.toNat :=
      show _ < 148816 by omega
    have hcolour : (fillMem s .video 1360 (4 * (PIXEL_MAX / 4))
        fun j => byteOf BLUE_SCREEN (j % 4)).mem .video
          ⟨1360 + (4 * pixel + channel), hin⟩
            = byteOf BLUE_SCREEN channel := by
      rw [fillMem_self]
      refine (Buffer.fill_of_mem _ _
        (show 1360 ≤ 1360 + (4 * pixel + channel)
          ∧ 1360 + (4 * pixel + channel) < 1360 + 4 * (PIXEL_MAX / 4) by
            omega)).trans (congrArg (byteOf BLUE_SCREEN) ?_)
      show (1360 + (4 * pixel + channel) - 1360) % 4 = channel
      omega
    exact (dif_pos hin).trans (congrArg Except.ok hcolour)
  · unfold initBlueScreen
    rw [hmax, List.range_add, List.foldlM_append, hpaint, ok_bind,
      List.range_succ_eq_map, List.map_cons, List.foldlM_cons,
      Nat.add_zero, paint_end]
    rfl

end Firmware

end T89Emu
