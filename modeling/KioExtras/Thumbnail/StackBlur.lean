import KioExtras.Lib.Windows

/-!
The blur of the shadow of a preview: `blurHorizontal` and `blurVertical`.

A line of the image is gone through once, with three sums and a ring of the values in the window.
A result that 32 bits do not hold, and an access outside of an array, have no value.
-/

namespace KioExtras.Thumbnail.ImageFilter

open KioExtras.Lib.Windows Finset

def stack_blur8_mul : List ℕ :=
  [512, 512, 456, 512, 328, 456, 335, 512, 405, 328, 271, 456, 388, 335, 292, 512, 454, 405, 364,
    328, 298, 271, 496, 456, 420, 388, 360, 335, 312, 292, 273, 512, 482, 454, 428, 405, 383, 364,
    345, 328, 312, 298, 284, 271, 259, 496, 475, 456, 437, 420, 404, 388, 374, 360, 347, 335, 323,
    312, 302, 292, 282, 273, 265, 512, 497, 482, 468, 454, 441, 428, 417, 405, 394, 383, 373, 364,
    354, 345, 337, 328, 320, 312, 305, 298, 291, 284, 278, 271, 265, 259, 507, 496, 485, 475, 465,
    456, 446, 437, 428, 420, 412, 404, 396, 388, 381, 374, 367, 360, 354, 347, 341, 335, 329, 323,
    318, 312, 307, 302, 297, 292, 287, 282, 278, 273, 269, 265, 261, 512, 505, 497, 489, 482, 475,
    468, 461, 454, 447, 441, 435, 428, 422, 417, 411, 405, 399, 394, 389, 383, 378, 373, 368, 364,
    359, 354, 350, 345, 341, 337, 332, 328, 324, 320, 316, 312, 309, 305, 301, 298, 294, 291, 287,
    284, 281, 278, 274, 271, 268, 265, 262, 259, 257, 507, 501, 496, 491, 485, 480, 475, 470, 465,
    460, 456, 451, 446, 442, 437, 433, 428, 424, 420, 416, 412, 408, 404, 400, 396, 392, 388, 385,
    381, 377, 374, 370, 367, 363, 360, 357, 354, 350, 347, 344, 341, 338, 335, 332, 329, 326, 323,
    320, 318, 315, 312, 310, 307, 304, 302, 299, 297, 294, 292, 289, 287, 285, 282, 280, 278, 275,
    273, 271, 269, 267, 265, 263, 261, 259]

def stack_blur8_shr : List ℕ :=
  [9, 11, 12, 13, 13, 14, 14, 15, 15, 15, 15, 16, 16, 16, 16, 17, 17, 17, 17, 17, 17, 17, 18, 18,
    18, 18, 18, 18, 18, 18, 18, 19, 19, 19, 19, 19, 19, 19, 19, 19, 19, 19, 19, 19, 19, 20, 20,
    20, 20, 20, 20, 20, 20, 20, 20, 20, 20, 20, 20, 20, 20, 20, 20, 21, 21, 21, 21, 21, 21, 21,
    21, 21, 21, 21, 21, 21, 21, 21, 21, 21, 21, 21, 21, 21, 21, 21, 21, 21, 21, 21, 22, 22, 22,
    22, 22, 22, 22, 22, 22, 22, 22, 22, 22, 22, 22, 22, 22, 22, 22, 22, 22, 22, 22, 22, 22, 22,
    22, 22, 22, 22, 22, 22, 22, 22, 22, 22, 22, 23, 23, 23, 23, 23, 23, 23, 23, 23, 23, 23, 23,
    23, 23, 23, 23, 23, 23, 23, 23, 23, 23, 23, 23, 23, 23, 23, 23, 23, 23, 23, 23, 23, 23, 23,
    23, 23, 23, 23, 23, 23, 23, 23, 23, 23, 23, 23, 23, 23, 23, 23, 23, 23, 23, 24, 24, 24, 24,
    24, 24, 24, 24, 24, 24, 24, 24, 24, 24, 24, 24, 24, 24, 24, 24, 24, 24, 24, 24, 24, 24, 24,
    24, 24, 24, 24, 24, 24, 24, 24, 24, 24, 24, 24, 24, 24, 24, 24, 24, 24, 24, 24, 24, 24, 24,
    24, 24, 24, 24, 24, 24, 24, 24, 24, 24, 24, 24, 24, 24, 24, 24, 24, 24, 24, 24, 24, 24, 24,
    24]

/-! ### The blur of a line -/

/-- A sum or a product of `unsigned int` -/
def unsigned (n : ℕ) : Option ℕ := if n < 2 ^ 32 then some n else none

/-- A difference of `unsigned int` -/
def minus (a b : ℕ) : Option ℕ := if b ≤ a then some (a - b) else none

def qAlpha (rgb : UInt32) : ℕ := (rgb >>> 24).toNat

variable {α : Type} {i radius : ℕ}

/-- `a[i] = v` -/
def put (a : List α) (i : ℕ) (v : α) : Option (List α) :=
  if i < a.length then some (a.set i v) else none

structure Line where
  stack : List ℕ
  sum : ℕ
  sum_in : ℕ
  sum_out : ℕ

/-- A turn of the first loop: the first pixel stands for those before it. -/
def enterFirst (pixel : UInt32) (s : Line) (i : ℕ) : Option Line := do
  let stack ← put s.stack i (qAlpha pixel)
  let stackpix ← stack[i]?
  let weighted ← unsigned (stackpix * (i + 1))
  let sum ← unsigned (s.sum + weighted)
  let sum_out ← unsigned (s.sum_out + stackpix)
  some { s with stack := stack, sum := sum, sum_out := sum_out }

/-- A turn of the second loop: the pixels behind the first one. -/
def enterNext (pixels : List UInt32) (position : ℕ → ℕ) (last radius : ℕ) (s : Line) (i : ℕ) :
    Option Line := do
  let pixel ← pixels[position (min i last)]?
  let stack ← put s.stack (i + radius) (qAlpha pixel)
  let stackpix ← stack[i + radius]?
  let weighted ← unsigned (stackpix * (radius + 1 - i))
  let sum ← unsigned (s.sum + weighted)
  let sum_in ← unsigned (s.sum_in + stackpix)
  some { s with stack := stack, sum := sum, sum_in := sum_in }

def shownPixel (mul_sum shr_sum sum : ℕ) : Option UInt32 := do
  let product ← unsigned (sum * mul_sum)
  let shifted ← unsigned ((product >>> shr_sum) <<< 24)
  some (UInt32.ofNat shifted &&& 0xff000000)

structure Turn where
  pixels : List UInt32
  line : Line
  stackindex : ℕ

/-- A turn of the loop over the pixels of the line. -/
def turn (position : ℕ → ℕ) (last div radius mul_sum shr_sum : ℕ) (t : Turn) (x : ℕ) :
    Option Turn := do
  let shown ← shownPixel mul_sum shr_sum t.line.sum
  let pixels ← put t.pixels (position x) shown
  let sum ← minus t.line.sum t.line.sum_out
  let stackstart := t.stackindex + div - radius
  let stackstart := if stackstart ≥ div then stackstart - div else stackstart
  let stackpix ← t.line.stack[stackstart]?
  let sum_out ← minus t.line.sum_out stackpix
  let pixel ← pixels[position (min (x + radius + 1) last)]?
  let stack ← put t.line.stack stackstart (qAlpha pixel)
  let stackpix ← stack[stackstart]?
  let sum_in ← unsigned (t.line.sum_in + stackpix)
  let sum ← unsigned (sum + sum_in)
  let stackindex := if t.stackindex + 1 ≥ div then 0 else t.stackindex + 1
  let stackpix ← stack[stackindex]?
  let sum_out ← unsigned (sum_out + stackpix)
  let sum_in ← minus sum_in stackpix
  some ⟨pixels, ⟨stack, sum, sum_in, sum_out⟩, stackindex⟩

/-- The body of the loop over the lines. The pixels of a line stand at the given positions. -/
def blurLine (position : ℕ → ℕ) (length div radius : ℕ) (a : List UInt32 × List ℕ) :
    Option (List UInt32 × List ℕ) := do
  let mul_sum ← stack_blur8_mul[radius]?
  let shr_sum ← stack_blur8_shr[radius]?
  let pixel ← a.1[position 0]?
  let s ← (List.range (radius + 1)).foldlM (enterFirst pixel) ⟨a.2, 0, 0, 0⟩
  let s ← (List.range' 1 radius).foldlM (enterNext a.1 position (length - 1) radius) s
  let t ← (List.range length).foldlM
    (turn position (length - 1) div radius mul_sum shr_sum) ⟨a.1, s, radius⟩
  some (t.pixels, t.line.stack)

def blurHorizontal (w h : ℕ) (pixels : List UInt32) (stack : List ℕ) (div radius : ℕ) :
    Option (List UInt32 × List ℕ) :=
  (List.range h).foldlM (fun a y => blurLine (fun x => y * w + x) w div radius a) (pixels, stack)

def blurVertical (w h : ℕ) (pixels : List UInt32) (stack : List ℕ) (div radius : ℕ) :
    Option (List UInt32 × List ℕ) :=
  (List.range w).foldlM (fun a x => blurLine (fun y => y * w + x) h div radius a) (pixels, stack)

structure QImage where
  width : ℕ
  height : ℕ
  bits : List UInt32
  size : bits.length = width * height
  width_pos : 0 < width
  height_pos : 0 < height

/-- `stack` is what stands in the new array. -/
def stackBlur (image : QImage) (stack : List ℕ) (radius : ℕ) : Option (List UInt32) := do
  let div := 2 * radius + 1
  let (pixels, stack) ← blurHorizontal image.width image.height image.bits stack div radius
  let (pixels, _) ← blurVertical image.width image.height pixels stack div radius
  some pixels

/-! ### The sum over the neighbours -/

/-- The nearest place of the line. -/
def clamped (last : ℕ) (k : ℤ) : ℕ := min k.toNat last

/-- The sum of the neighbours at the distances `d` from `-radius` to `radius`. -/
def kernel (radius : ℕ) (a : ℕ → ℕ) (last x : ℕ) : ℕ :=
  ∑ i ∈ range (2 * radius + 1), (radius + 1 - ((i : ℤ) - radius).natAbs) *
    a (clamped last (x + ((i : ℤ) - radius)))

def blurred (radius : ℕ) (a : ℕ → ℕ) (last x : ℕ) : ℕ :=
  (kernel radius a last x * stack_blur8_mul.getD radius 0) >>> stack_blur8_shr.getD radius 0

/-- The values of a line as they come into the window. -/
def extended (radius : ℕ) (a : ℕ → ℕ) (last i : ℕ) : ℕ := a (min (i - radius) last)

lemma kernel_eq (radius : ℕ) (a : ℕ → ℕ) (last x : ℕ) :
    kernel radius a last x = weighted radius (extended radius a last) x := by
  have hsplit : 2 * radius + 1 = radius + 1 + radius := by omega
  rw [kernel, hsplit, sum_range_add, weighted, weightedOlder, weightedNewer]
  congr 1
  · apply sum_congr rfl
    intro i hi
    have hle : i ≤ radius := Nat.le_of_lt_succ (mem_range.mp hi)
    have hweight : radius + 1 - ((i : ℤ) - radius).natAbs = i + 1 := by omega
    have hplace : clamped last (x + ((i : ℤ) - radius)) = min (x + i - radius) last := by
      unfold clamped
      omega
    rw [hweight, hplace, smul_eq_mul]
    rfl
  · apply sum_congr rfl
    intro i hi
    have hlt : i < radius := mem_range.mp hi
    have hweight : radius + 1 - (((radius + 1 + i : ℕ) : ℤ) - radius).natAbs = radius - i := by
      omega
    have hplace : clamped last (x + (((radius + 1 + i : ℕ) : ℤ) - radius)) =
        min (x + radius + 1 + i - radius) last := by
      unfold clamped
      omega
    rw [hweight, hplace, smul_eq_mul]
    rfl

/-! ### The tables -/

/-- The entries of both tables, with the radius they are for. -/
def entries : List ((ℕ × ℕ) × ℕ) := (stack_blur8_mul.zip stack_blur8_shr).zipIdx

lemma entries_small : ∀ e ∈ entries,
    255 * ((e.2 + 1) * (e.2 + 1)) * e.1.1 < min (2 ^ 32) (2 ^ (e.1.2 + 8)) := by
  decide +kernel

lemma length_mul : stack_blur8_mul.length = 255 := by decide +kernel

lemma length_shr : stack_blur8_shr.length = 255 := by decide +kernel

lemma mem_zipIdx {l m : List ℕ} (hl : i < l.length) (hm : i < m.length) :
    ((l.getD i 0, m.getD i 0), i) ∈ (l.zip m).zipIdx := by
  rw [List.mem_zipIdx_iff_getElem?, List.getElem?_zip_eq_some, List.getD_eq_getElem _ _ hl,
    List.getD_eq_getElem _ _ hm]
  exact ⟨List.getElem?_eq_getElem hl, List.getElem?_eq_getElem hm⟩

lemma tables (h : radius < 255) : 255 * ((radius + 1) * (radius + 1)) *
    stack_blur8_mul.getD radius 0 < min (2 ^ 32) (2 ^ (stack_blur8_shr.getD radius 0 + 8)) :=
  entries_small _ (mem_zipIdx (length_mul ▸ h) (length_shr ▸ h))

section tables

variable {radius sum : ℕ}

lemma product_lt (hradius : radius < 255) (hsum : sum ≤ (radius + 1) * (radius + 1) * 255) :
    sum * stack_blur8_mul.getD radius 0 < 2 ^ 32 := by
  have htable := lt_of_lt_of_le (tables hradius) (Nat.min_le_left _ _)
  rw [Nat.mul_comm] at hsum
  exact Nat.lt_of_le_of_lt (Nat.mul_le_mul_right _ hsum) htable

lemma shown_le (hradius : radius < 255) (hsum : sum ≤ (radius + 1) * (radius + 1) * 255) :
    (sum * stack_blur8_mul.getD radius 0) >>> stack_blur8_shr.getD radius 0 ≤ 255 := by
  have htable := lt_of_lt_of_le (tables hradius) (Nat.min_le_right _ _)
  rw [Nat.mul_comm] at hsum
  have hlt := Nat.lt_of_le_of_lt (Nat.mul_le_mul_right (stack_blur8_mul.getD radius 0) hsum) htable
  rw [Nat.pow_add] at hlt
  rw [Nat.shiftRight_eq_div_pow]
  exact Nat.le_of_lt_succ (Nat.div_lt_of_lt_mul hlt)

end tables

/-- The pixel of a blurred value. -/
def shadow (v : ℕ) : UInt32 := UInt32.ofNat (v <<< 24) &&& 0xff000000

lemma qAlpha_le (rgb : UInt32) : qAlpha rgb ≤ 255 := by
  have hlt := rgb.toNat_lt
  rw [qAlpha, UInt32.toNat_shiftRight, Nat.shiftRight_eq_div_pow]
  change rgb.toNat / 2 ^ 24 ≤ 255
  omega

lemma qAlpha_shadow : ∀ v ≤ 255, qAlpha (shadow v) = v := by decide +kernel

lemma shownPixel_eq {sum : ℕ} (hradius : radius < 255)
    (hsum : sum ≤ (radius + 1) * (radius + 1) * 255) :
    shownPixel (stack_blur8_mul.getD radius 0) (stack_blur8_shr.getD radius 0) sum =
      some (shadow ((sum * stack_blur8_mul.getD radius 0) >>> stack_blur8_shr.getD radius 0)) := by
  have hshown := shown_le hradius hsum
  have hshifted : ((sum * stack_blur8_mul.getD radius 0) >>>
      stack_blur8_shr.getD radius 0) <<< 24 < 2 ^ 32 := by
    rw [Nat.shiftLeft_eq]
    omega
  simp only [shownPixel, unsigned, if_pos (product_lt hradius hsum), if_pos hshifted,
    Option.bind_eq_bind, Option.bind_some]
  rfl

/-! ### The first window -/

lemma unsigned_eq {n : ℕ} (h : n < 2 ^ 32) : unsigned n = some n := if_pos h

lemma minus_eq {a b : ℕ} (h : b ≤ a) : minus a b = some (a - b) := if_pos h

lemma put_eq {a : List α} (h : i < a.length) (v : α) : put a i v = some (a.set i v) := if_pos h

section window

variable {pixels : List UInt32} {position : ℕ → ℕ} {row : ℕ → UInt32} {last radius : ℕ}

variable {n : ℕ}

lemma enterFirst_loop (pixel : UInt32) {stack : List ℕ} (hn : n ≤ 255) (hlen : n ≤ stack.length) :
    ∃ cells, (List.range n).foldlM (enterFirst pixel) ⟨stack, 0, 0, 0⟩ =
        some ⟨cells, ∑ i ∈ range n, (i + 1) * qAlpha pixel, 0, ∑ _i ∈ range n, qAlpha pixel⟩ ∧
      cells.length = stack.length ∧ ∀ i < n, cells[i]? = some (qAlpha pixel) := by
  induction n with
  | zero => exact ⟨stack, rfl, rfl, fun i hi => absurd hi (Nat.not_lt_zero i)⟩
  | succ n ih =>
    obtain ⟨cells, hrun, hcells, hvalue⟩ := ih (by omega) (by omega)
    have halpha := qAlpha_le pixel
    have hlt : n < cells.length := by omega
    have hself : (cells.set n (qAlpha pixel))[n]? = some (qAlpha pixel) :=
      List.getElem?_set_self hlt
    have hproduct : qAlpha pixel * (n + 1) ≤ 255 * 255 := Nat.mul_le_mul halpha hn
    have hsum : ∑ i ∈ range n, (i + 1) * qAlpha pixel ≤ 255 * (255 * 255) := by
      calc ∑ i ∈ range n, (i + 1) * qAlpha pixel ≤ ∑ _i ∈ range n, 255 * 255 := by
            apply sum_le_sum
            intro i hi
            have hi := mem_range.mp hi
            exact Nat.mul_le_mul (by omega) halpha
        _ = n * (255 * 255) := by rw [sum_const, card_range, smul_eq_mul]
        _ ≤ 255 * (255 * 255) := Nat.mul_le_mul_right _ (by omega)
    have hout : ∑ _i ∈ range n, qAlpha pixel ≤ 255 * 255 := by
      rw [sum_const, card_range, smul_eq_mul]
      exact Nat.mul_le_mul (by omega) halpha
    have hweighted : unsigned (qAlpha pixel * (n + 1)) = some (qAlpha pixel * (n + 1)) :=
      unsigned_eq (by omega)
    have hnext : unsigned (∑ i ∈ range n, (i + 1) * qAlpha pixel + qAlpha pixel * (n + 1)) =
        some (∑ i ∈ range n, (i + 1) * qAlpha pixel + qAlpha pixel * (n + 1)) :=
      unsigned_eq (by omega)
    have hplain : unsigned (∑ _i ∈ range n, qAlpha pixel + qAlpha pixel) =
        some (∑ _i ∈ range n, qAlpha pixel + qAlpha pixel) := unsigned_eq (by omega)
    refine ⟨cells.set n (qAlpha pixel), ?_, by rw [List.length_set, hcells], ?_⟩
    · rw [List.range_succ, List.foldlM_append, hrun, sum_range_succ, sum_range_succ,
        Nat.mul_comm (n + 1)]
      simp only [Option.bind_eq_bind, Option.bind_some, List.foldlM_cons, List.foldlM_nil,
        enterFirst, put_eq hlt, hself, hweighted, hnext, hplain]
      rfl
    · intro i hi
      rcases Nat.lt_succ_iff_lt_or_eq.mp hi with hlt' | rfl
      · rw [List.getElem?_set_ne (by omega)]
        exact hvalue i hlt'
      · exact hself

lemma enterNext_loop {cells : List ℕ} {sum sum_out : ℕ}
    (hrow : ∀ k ≤ last, pixels[position k]? = some (row k)) (hn : n ≤ radius)
    (hradius : radius < 255) (hlen : cells.length = 2 * radius + 1)
    (hsum : sum ≤ 255 * (255 * 255)) :
    ∃ next, (List.range' 1 n).foldlM (enterNext pixels position last radius)
        ⟨cells, sum, 0, sum_out⟩ =
          some ⟨next, sum + ∑ i ∈ range n, (radius - i) * qAlpha (row (min (i + 1) last)),
            ∑ i ∈ range n, qAlpha (row (min (i + 1) last)), sum_out⟩ ∧
      next.length = 2 * radius + 1 ∧ (∀ i ≤ radius, next[i]? = cells[i]?) ∧
      ∀ i < n, next[radius + 1 + i]? = some (qAlpha (row (min (i + 1) last))) := by
  induction n with
  | zero => exact ⟨cells, rfl, hlen, fun i _ => rfl, fun i hi => absurd hi (Nat.not_lt_zero i)⟩
  | succ n ih =>
    obtain ⟨next, hrun, hnext, hfirst, hvalue⟩ := ih (by omega)
    have hpixel := hrow (min (n + 1) last) (Nat.min_le_right _ _)
    have halpha := qAlpha_le (row (min (n + 1) last))
    rw [Nat.add_comm n 1] at hpixel halpha
    generalize hv : qAlpha (row (min (1 + n) last)) = v at halpha
    have hlt : 1 + n + radius < next.length := by omega
    have hself : (next.set (1 + n + radius) v)[1 + n + radius]? = some v :=
      List.getElem?_set_self hlt
    have hproduct : v * (radius + 1 - (1 + n)) ≤ 255 * 255 :=
      Nat.mul_le_mul halpha (by omega)
    have hsums : ∑ i ∈ range n, (radius - i) * qAlpha (row (min (i + 1) last)) ≤
        255 * (255 * 255) := by
      calc ∑ i ∈ range n, (radius - i) * qAlpha (row (min (i + 1) last))
          ≤ ∑ _i ∈ range n, 255 * 255 := by
            apply sum_le_sum
            intro i _
            exact Nat.mul_le_mul (by omega) (qAlpha_le _)
        _ = n * (255 * 255) := by rw [sum_const, card_range, smul_eq_mul]
        _ ≤ 255 * (255 * 255) := Nat.mul_le_mul_right _ (by omega)
    have hin : ∑ i ∈ range n, qAlpha (row (min (i + 1) last)) ≤ 255 * 255 := by
      calc ∑ i ∈ range n, qAlpha (row (min (i + 1) last)) ≤ ∑ _i ∈ range n, 255 :=
            sum_le_sum fun i _ => qAlpha_le _
        _ = n * 255 := by rw [sum_const, card_range, smul_eq_mul]
        _ ≤ 255 * 255 := Nat.mul_le_mul_right _ (by omega)
    generalize hS : ∑ i ∈ range n, (radius - i) * qAlpha (row (min (i + 1) last)) = S at *
    generalize hI : ∑ i ∈ range n, qAlpha (row (min (i + 1) last)) = I at *
    have hweighted : unsigned (v * (radius + 1 - (1 + n))) = some (v * (radius + 1 - (1 + n))) :=
      unsigned_eq (by omega)
    have hmore : unsigned (sum + S + v * (radius + 1 - (1 + n))) =
        some (sum + S + v * (radius + 1 - (1 + n))) := unsigned_eq (by omega)
    have hplain : unsigned (I + v) = some (I + v) := unsigned_eq (by omega)
    refine ⟨next.set (1 + n + radius) v, ?_, by rw [List.length_set, hnext], ?_, ?_⟩
    · rw [List.range'_1_concat, List.foldlM_append, hrun, sum_range_succ, sum_range_succ, hS, hI]
      simp only [Option.bind_eq_bind, Option.bind_some, List.foldlM_cons, List.foldlM_nil,
        enterNext, hpixel, hv, put_eq hlt, hself, hweighted, hmore, hplain]
      have hweight : radius + 1 - (1 + n) = radius - n := by omega
      rw [hweight, Nat.add_comm n 1, hv, Nat.mul_comm v, Nat.add_assoc sum]
      rfl
    · intro i hi
      rw [List.getElem?_set_ne (by omega)]
      exact hfirst i hi
    · intro i hi
      have hplace : 1 + n + radius = radius + 1 + n := by omega
      rw [hplace] at hself ⊢
      rcases Nat.lt_succ_iff_lt_or_eq.mp hi with hlt' | rfl
      · rw [List.getElem?_set_ne (by omega)]
        exact hvalue i hlt'
      · rw [hself, Nat.add_comm i 1, hv]

/-- The values that come into the window, with the one that is read behind the end of the line. -/
def incoming (radius : ℕ) (a : ℕ → ℕ) (last i : ℕ) : ℕ :=
  if i ≤ last + 2 * radius then extended radius a last i else blurred radius a last last

lemma enter_loops {stack : List ℕ} (hrow : ∀ k ≤ last, pixels[position k]? = some (row k))
    (hradius : radius < 255) (hlen : stack.length = 2 * radius + 1) :
    ∃ first cells,
      (List.range (radius + 1)).foldlM (enterFirst (row 0)) ⟨stack, 0, 0, 0⟩ = some first ∧
      (List.range' 1 radius).foldlM (enterNext pixels position last radius) first =
        some ⟨cells, weighted radius (incoming radius (fun k => qAlpha (row k)) last) 0,
          newer radius (incoming radius (fun k => qAlpha (row k)) last) 0,
          older radius (incoming radius (fun k => qAlpha (row k)) last) 0⟩ ∧
      Holds (2 * radius + 1) cells (incoming radius (fun k => qAlpha (row k)) last) 0 := by
  have hbefore : ∀ i ≤ radius,
      incoming radius (fun k => qAlpha (row k)) last i = qAlpha (row 0) := by
    intro i hi
    have hzero : min (i - radius) last = 0 := by omega
    rw [incoming, if_pos (by omega), extended, hzero]
  have hbehind : ∀ i < radius, incoming radius (fun k => qAlpha (row k)) last (radius + 1 + i) =
      qAlpha (row (min (i + 1) last)) := by
    intro i hi
    have hplace : radius + 1 + i - radius = i + 1 := by omega
    rw [incoming, if_pos (by omega), extended, hplace]
  have holder : older radius (incoming radius (fun k => qAlpha (row k)) last) 0 =
      ∑ _i ∈ range (radius + 1), qAlpha (row 0) := by
    apply sum_congr rfl
    intro i hi
    rw [Nat.zero_add, hbefore i (Nat.le_of_lt_succ (mem_range.mp hi))]
  have hnewer : newer radius (incoming radius (fun k => qAlpha (row k)) last) 0 =
      ∑ i ∈ range radius, qAlpha (row (min (i + 1) last)) := by
    apply sum_congr rfl
    intro i hi
    rw [Nat.zero_add, hbehind i (mem_range.mp hi)]
  have hweighted : weighted radius (incoming radius (fun k => qAlpha (row k)) last) 0 =
      ∑ i ∈ range (radius + 1), (i + 1) * qAlpha (row 0) +
        ∑ i ∈ range radius, (radius - i) * qAlpha (row (min (i + 1) last)) := by
    rw [weighted, weightedOlder, weightedNewer]
    congr 1
    · apply sum_congr rfl
      intro i hi
      rw [Nat.zero_add, hbefore i (Nat.le_of_lt_succ (mem_range.mp hi)), smul_eq_mul]
    · apply sum_congr rfl
      intro i hi
      rw [Nat.zero_add, hbehind i (mem_range.mp hi), smul_eq_mul]
  obtain ⟨cells, hfirst, hcells, hvalue⟩ :=
    enterFirst_loop (row 0) (show radius + 1 ≤ 255 by omega)
      (show radius + 1 ≤ stack.length by omega)
  have hsum : ∑ i ∈ range (radius + 1), (i + 1) * qAlpha (row 0) ≤ 255 * (255 * 255) := by
    calc ∑ i ∈ range (radius + 1), (i + 1) * qAlpha (row 0) ≤ ∑ _i ∈ range (radius + 1),
          255 * 255 := by
          apply sum_le_sum
          intro i hi
          have hi := mem_range.mp hi
          exact Nat.mul_le_mul (by omega) (qAlpha_le _)
      _ = (radius + 1) * (255 * 255) := by rw [sum_const, card_range, smul_eq_mul]
      _ ≤ 255 * (255 * 255) := Nat.mul_le_mul_right _ (by omega)
  obtain ⟨next, hrun, hnext, hkept, hmore⟩ := enterNext_loop hrow (Nat.le_refl radius)
    hradius (hcells.trans hlen) hsum
  refine ⟨_, next, hfirst, ?_, hnext, ?_⟩
  · rw [hrun, hweighted, hnewer, holder]
  · intro i _ hi
    rw [Nat.zero_add] at hi
    rw [Nat.mod_eq_of_lt hi]
    rcases Nat.lt_or_ge radius i with hlt | hle
    · obtain ⟨j, rfl⟩ : ∃ j, i = radius + 1 + j := ⟨i - (radius + 1), by omega⟩
      rw [hmore j (by omega), hbehind j (by omega)]
    · rw [hkept i hle, hvalue i (by omega), hbefore i hle]

end window

/-! ### The turns -/

section index

variable {x radius : ℕ}

lemma stackstart_eq :
    (if (x + radius) % (2 * radius + 1) + (2 * radius + 1) - radius ≥ 2 * radius + 1
      then (x + radius) % (2 * radius + 1) + (2 * radius + 1) - radius - (2 * radius + 1)
      else (x + radius) % (2 * radius + 1) + (2 * radius + 1) - radius) = x % (2 * radius + 1) := by
  have hlt := Nat.mod_lt x (show 0 < 2 * radius + 1 by omega)
  rw [Nat.add_mod, Nat.mod_eq_of_lt (show radius < 2 * radius + 1 by omega)]
  generalize x % (2 * radius + 1) = m at hlt ⊢
  rcases Nat.lt_or_ge (m + radius) (2 * radius + 1) with hsmall | hlarge
  · rw [Nat.mod_eq_of_lt hsmall]
    split_ifs <;> omega
  · rw [Nat.mod_eq_sub_mod hlarge, Nat.mod_eq_of_lt (by omega)]
    split_ifs <;> omega

lemma stackindex_eq : (if (x + radius) % (2 * radius + 1) + 1 ≥ 2 * radius + 1 then 0
      else (x + radius) % (2 * radius + 1) + 1) = (x + 1 + radius) % (2 * radius + 1) := by
  have hlt := Nat.mod_lt (x + radius) (show 0 < 2 * radius + 1 by omega)
  have hnext : (x + 1 + radius) % (2 * radius + 1) =
      ((x + radius) % (2 * radius + 1) + 1) % (2 * radius + 1) := by
    rw [Nat.mod_add_mod, Nat.add_right_comm]
  rw [hnext]
  generalize (x + radius) % (2 * radius + 1) = m at hlt ⊢
  split_ifs with h
  · obtain rfl : m = 2 * radius := by omega
    rw [Nat.mod_self]
  · rw [Nat.mod_eq_of_lt (by omega)]

end index

section turn

variable {pixels : List UInt32} {position : ℕ → ℕ} {row : ℕ → UInt32} {last radius x : ℕ}

/-- The line is blurred up to `x`, and the window is the one from `x` on. -/
structure Blurred (pixels : List UInt32) (position : ℕ → ℕ) (row : ℕ → UInt32) (last radius x : ℕ)
    (t : Turn) : Prop where
  holds : Holds (2 * radius + 1) t.line.stack
    (incoming radius (fun k => qAlpha (row k)) last) x
  sum : t.line.sum = weighted radius (incoming radius (fun k => qAlpha (row k)) last) x
  sum_in : t.line.sum_in = newer radius (incoming radius (fun k => qAlpha (row k)) last) x
  sum_out : t.line.sum_out = older radius (incoming radius (fun k => qAlpha (row k)) last) x
  stackindex : t.stackindex = (x + radius) % (2 * radius + 1)
  length : t.pixels.length = pixels.length
  done : ∀ k < x, t.pixels[position k]? =
    some (shadow (blurred radius (fun k => qAlpha (row k)) last k))
  rest : ∀ i, (∀ k < x, position k ≠ i) → t.pixels[i]? = pixels[i]?

lemma weighted_incoming (radius : ℕ) (a : ℕ → ℕ) {last x : ℕ} (hx : x ≤ last) :
    weighted radius (incoming radius a last) x = kernel radius a last x := by
  rw [kernel_eq]
  apply weighted_congr
  intro i _ hi
  exact if_pos (by omega)

variable {a b : ℕ → ℕ} {t : Turn}

lemma kernel_le (ha : ∀ k, a k ≤ 255) :
    kernel radius a last x ≤ (radius + 1) * (radius + 1) * 255 := by
  rw [kernel_eq]
  exact weighted_le fun i => ha _

lemma blurred_le (hradius : radius < 255) (ha : ∀ k, a k ≤ 255) :
    blurred radius a last x ≤ 255 := shown_le hradius (kernel_le ha)

lemma incoming_le (hradius : radius < 255) (ha : ∀ k, a k ≤ 255) (i : ℕ) :
    incoming radius a last i ≤ 255 := by
  unfold incoming
  split_ifs
  · exact ha _
  · exact blurred_le hradius ha

lemma sums_next (hb : ∀ i, b i ≤ 255) (hradius : radius < 255) :
    minus (weighted radius b x) (older radius b x) =
      some (weighted radius b x - older radius b x) ∧
    minus (older radius b x) (b x) = some (older radius b x - b x) ∧
    unsigned (newer radius b x + b (x + 2 * radius + 1)) =
      some (newer radius b x + b (x + 2 * radius + 1)) ∧
    unsigned (weighted radius b x - older radius b x +
      (newer radius b x + b (x + 2 * radius + 1))) = some (weighted radius b (x + 1)) ∧
    unsigned (older radius b x - b x + b (x + radius + 1)) = some (older radius b (x + 1)) ∧
    minus (newer radius b x + b (x + 2 * radius + 1)) (b (x + radius + 1)) =
      some (newer radius b (x + 1)) := by
  have hle : older radius b x ≤ weighted radius b x := older_le_weighted
  have hoff : b x ≤ older radius b x := le_older
  have hnext := weighted_succ radius b x
  have hnextOut := older_succ radius b x
  have hnextIn := newer_succ radius b x
  have hweighted : weighted radius b (x + 1) ≤ 255 * 255 * 255 :=
    (weighted_le hb).trans (Nat.mul_le_mul_right _ (Nat.mul_le_mul (by omega) (by omega)))
  have hnewer : newer radius b x ≤ 255 * 255 :=
    (newer_le hb).trans (Nat.mul_le_mul_right _ (by omega))
  have holder : older radius b (x + 1) ≤ 255 * 255 :=
    (older_le hb).trans (Nat.mul_le_mul_right _ (by omega))
  have hlate := hb (x + 2 * radius + 1)
  refine ⟨minus_eq hle, minus_eq hoff, unsigned_eq (by omega), ?_, ?_, ?_⟩
  · rw [unsigned_eq (by omega)]
    congr 1
    omega
  · rw [unsigned_eq (by omega)]
    congr 1
    omega
  · rw [minus_eq (by omega)]
    congr 1
    omega

lemma turn_eq {mul_sum shr_sum : ℕ} {shown pixel : UInt32} {written : List UInt32}
    (hb : ∀ i, b i ≤ 255) (hradius : radius < 255)
    (hholds : Holds (2 * radius + 1) t.line.stack b x) (hsum : t.line.sum = weighted radius b x)
    (hin : t.line.sum_in = newer radius b x) (hout : t.line.sum_out = older radius b x)
    (hindex : t.stackindex = (x + radius) % (2 * radius + 1))
    (hshown : shownPixel mul_sum shr_sum t.line.sum = some shown)
    (hwritten : put t.pixels (position x) shown = some written)
    (hpixel : written[position (min (x + radius + 1) last)]? = some pixel)
    (hincoming : qAlpha pixel = b (x + 2 * radius + 1)) :
    ImageFilter.turn position last (2 * radius + 1) radius mul_sum shr_sum t x =
      some ⟨written, ⟨t.line.stack.set (x % (2 * radius + 1)) (b (x + 2 * radius + 1)),
        weighted radius b (x + 1), newer radius b (x + 1), older radius b (x + 1)⟩,
        (x + 1 + radius) % (2 * radius + 1)⟩ := by
  have hpos : 0 < 2 * radius + 1 := Nat.succ_pos _
  have hfirst := hholds.value x (Nat.le_refl x) (by omega)
  have hpush := hholds.push hpos
  have hcell : x % (2 * radius + 1) < t.line.stack.length := by
    rw [hholds.length]
    exact Nat.mod_lt x hpos
  have hlast : (t.line.stack.set (x % (2 * radius + 1)) (b (x + 2 * radius + 1)))[
      x % (2 * radius + 1)]? = some (b (x + 2 * radius + 1)) := List.getElem?_set_self hcell
  have hmiddle := hpush.value (x + 1 + radius) (by omega) (by omega)
  have hplace : x + 1 + radius = x + radius + 1 := by omega
  rw [← Nat.add_assoc x (2 * radius) 1] at hmiddle
  obtain ⟨hsum', hout', hin', hsumNext, houtNext, hinNext⟩ := sums_next (x := x) hb hradius
  rw [← hplace] at houtNext hinNext
  rw [hsum] at hshown
  simp only [ImageFilter.turn, hshown, hwritten, hsum, hin, hout, hsum', hindex, stackstart_eq,
    hfirst, hout', hpixel, hincoming, put_eq hcell, hlast, hin', hsumNext, stackindex_eq, hmiddle,
    houtNext, hinNext, Option.bind_eq_bind, Option.bind_some]

lemma Blurred.written (h : Blurred pixels position row last radius x t)
    (hrow : ∀ k ≤ last, pixels[position k]? = some (row k))
    (hinj : ∀ k ≤ last, ∀ l ≤ last, position k = position l → k = l) (hx : x ≤ last) :
    ∃ written, put t.pixels (position x)
        (shadow (blurred radius (fun k => qAlpha (row k)) last x)) = some written ∧
      written.length = pixels.length ∧
      (∀ k < x + 1, written[position k]? =
        some (shadow (blurred radius (fun k => qAlpha (row k)) last k))) ∧
      ∀ i, (∀ k < x + 1, position k ≠ i) → written[i]? = pixels[i]? := by
  have hlt : position x < t.pixels.length := by
    rw [h.length]
    exact (List.getElem?_eq_some_iff.mp (hrow x hx)).1
  refine ⟨_, put_eq hlt _, by rw [List.length_set, h.length], ?_, ?_⟩
  · intro k hk
    rcases Nat.lt_succ_iff_lt_or_eq.mp hk with hk | rfl
    · have hne : position x ≠ position k := by
        intro heq
        have hxk := hinj x hx k (by omega) heq
        omega
      rw [List.getElem?_set_ne hne]
      exact h.done k hk
    · exact List.getElem?_set_self hlt
  · intro i hi
    rw [List.getElem?_set_ne (hi x (Nat.lt_succ_self x))]
    exact h.rest i fun k hk => hi k (Nat.lt_succ_of_lt hk)

lemma Blurred.turn (h : Blurred pixels position row last radius x t)
    (hrow : ∀ k ≤ last, pixels[position k]? = some (row k))
    (hinj : ∀ k ≤ last, ∀ l ≤ last, position k = position l → k = l) (hradius : radius < 255)
    (hx : x ≤ last) :
    ∃ t', ImageFilter.turn position last (2 * radius + 1) radius
        (stack_blur8_mul.getD radius 0) (stack_blur8_shr.getD radius 0) t x = some t' ∧
      Blurred pixels position row last radius (x + 1) t' := by
  have ha : ∀ k, qAlpha (row k) ≤ 255 := fun k => qAlpha_le _
  have hb : ∀ i, incoming radius (fun k => qAlpha (row k)) last i ≤ 255 :=
    incoming_le hradius ha
  have hshown : shownPixel (stack_blur8_mul.getD radius 0) (stack_blur8_shr.getD radius 0)
      t.line.sum = some (shadow (blurred radius (fun k => qAlpha (row k)) last x)) := by
    rw [h.sum, weighted_incoming radius _ hx]
    exact shownPixel_eq hradius (kernel_le ha)
  obtain ⟨written, hwritten, hlength, hdone, hrest⟩ := h.written hrow hinj hx
  -- the pixel that comes in; at the end of the line it is the one just written
  obtain ⟨pixel, hpixel, hincoming⟩ : ∃ pixel,
      written[position (min (x + radius + 1) last)]? = some pixel ∧
        qAlpha pixel = incoming radius (fun k => qAlpha (row k)) last (x + (2 * radius + 1)) := by
    rcases Nat.lt_or_eq_of_le hx with hlt | rfl
    · refine ⟨row (min (x + radius + 1) last), ?_, ?_⟩
      · rw [hrest]
        · exact hrow _ (Nat.min_le_right _ _)
        · intro k hk heq
          have hkl := hinj k (by omega) _ (Nat.min_le_right _ _) heq
          omega
      · have hplace : x + (2 * radius + 1) - radius = x + radius + 1 := by omega
        rw [incoming, if_pos (by omega), extended, hplace]
    · refine ⟨shadow (blurred radius (fun k => qAlpha (row k)) x x), ?_, ?_⟩
      · rw [Nat.min_eq_right (by omega)]
        exact hdone x (Nat.lt_succ_self x)
      · rw [qAlpha_shadow _ (blurred_le hradius ha), incoming, if_neg (by omega)]
  rw [← Nat.add_assoc x (2 * radius) 1] at hincoming
  refine ⟨_, turn_eq hb hradius h.holds h.sum h.sum_in h.sum_out h.stackindex hshown hwritten
    hpixel hincoming, ?_⟩
  exact ⟨h.holds.push (Nat.succ_pos _), rfl, rfl, rfl, rfl, hlength, hdone, hrest⟩

end turn

/-! ### Lines -/

section line

variable {position : ℕ → ℕ} {row : ℕ → UInt32} {last radius : ℕ}

structure LineBlurred (pixels : List UInt32) (position : ℕ → ℕ) (row : ℕ → UInt32)
    (last radius : ℕ) (after : List UInt32) : Prop where
  length : after.length = pixels.length
  done : ∀ k ≤ last, after[position k]? =
    some (shadow (blurred radius (fun k => qAlpha (row k)) last k))
  rest : ∀ i, (∀ k ≤ last, position k ≠ i) → after[i]? = pixels[i]?

variable {n : ℕ} {pixels : List UInt32}

lemma turns {t : Turn} (h : Blurred pixels position row last radius 0 t)
    (hrow : ∀ k ≤ last, pixels[position k]? = some (row k))
    (hinj : ∀ k ≤ last, ∀ l ≤ last, position k = position l → k = l) (hradius : radius < 255)
    (hn : n ≤ last + 1) :
    ∃ t', (List.range n).foldlM (ImageFilter.turn position last (2 * radius + 1) radius
        (stack_blur8_mul.getD radius 0) (stack_blur8_shr.getD radius 0)) t = some t' ∧
      Blurred pixels position row last radius n t' := by
  induction n with
  | zero => exact ⟨t, rfl, h⟩
  | succ n ih =>
    obtain ⟨u, hrun, hu⟩ := ih (by omega)
    obtain ⟨v, hturn, hv⟩ := hu.turn hrow hinj hradius (by omega)
    refine ⟨v, ?_, hv⟩
    rw [List.range_succ, List.foldlM_append, hrun]
    simp only [Option.bind_eq_bind, Option.bind_some, List.foldlM_cons, List.foldlM_nil, hturn]
    rfl

lemma blurLine_eq {stack : List ℕ} (hrow : ∀ k ≤ last, pixels[position k]? = some (row k))
    (hinj : ∀ k ≤ last, ∀ l ≤ last, position k = position l → k = l) (hradius : radius < 255)
    (hstack : stack.length = 2 * radius + 1) :
    ∃ after cells, blurLine position (last + 1) (2 * radius + 1) radius (pixels, stack) =
        some (after, cells) ∧
      LineBlurred pixels position row last radius after ∧ cells.length = 2 * radius + 1 := by
  obtain ⟨first, cells, hfirst, hnext, hholds⟩ := enter_loops hrow hradius hstack
  have hbegin : Blurred pixels position row last radius 0 ⟨pixels, ⟨cells,
      weighted radius (incoming radius (fun k => qAlpha (row k)) last) 0,
      newer radius (incoming radius (fun k => qAlpha (row k)) last) 0,
      older radius (incoming radius (fun k => qAlpha (row k)) last) 0⟩, radius⟩ :=
    ⟨hholds, rfl, rfl, rfl, by rw [Nat.zero_add, Nat.mod_eq_of_lt (by omega)], rfl,
      fun k hk => absurd hk (Nat.not_lt_zero k), fun _ _ => rfl⟩
  obtain ⟨t, hrun, ht⟩ := turns hbegin hrow hinj hradius (Nat.le_refl _)
  have hmul : stack_blur8_mul[radius]? = some (stack_blur8_mul.getD radius 0) := by
    rw [List.getD_eq_getElem _ _ (length_mul ▸ hradius)]
    exact List.getElem?_eq_getElem _
  have hshr : stack_blur8_shr[radius]? = some (stack_blur8_shr.getD radius 0) := by
    rw [List.getD_eq_getElem _ _ (length_shr ▸ hradius)]
    exact List.getElem?_eq_getElem _
  refine ⟨t.pixels, t.line.stack, ?_, ⟨ht.length, ?_, ?_⟩, ht.holds.length⟩
  · simp only [blurLine, hmul, hshr, hrow 0 (Nat.zero_le _), hfirst, Nat.add_sub_cancel, hnext,
      hrun, Option.bind_eq_bind, Option.bind_some]
  · exact fun k hk => ht.done k (Nat.lt_succ_of_le hk)
  · exact fun i hi => ht.rest i fun k hk => hi k (Nat.le_of_lt_succ hk)

lemma blurLines_eq (positions : ℕ → ℕ → ℕ) (rows : ℕ → ℕ → UInt32) (last : ℕ) {stack : List ℕ}
    {lines : ℕ} (hn : n ≤ lines)
    (hrow : ∀ l < lines, ∀ k ≤ last, pixels[positions l k]? = some (rows l k))
    (hinj : ∀ l < lines, ∀ k ≤ last, ∀ l' < lines, ∀ k' ≤ last,
      positions l k = positions l' k' → l = l' ∧ k = k') (hradius : radius < 255)
    (hstack : stack.length = 2 * radius + 1) :
    ∃ after cells, (List.range n).foldlM
        (fun a l => blurLine (positions l) (last + 1) (2 * radius + 1) radius a) (pixels, stack) =
          some (after, cells) ∧
      cells.length = 2 * radius + 1 ∧ after.length = pixels.length ∧
      (∀ l < n, ∀ k ≤ last, after[positions l k]? =
        some (shadow (blurred radius (fun k => qAlpha (rows l k)) last k))) ∧
      ∀ i, (∀ l < n, ∀ k ≤ last, positions l k ≠ i) → after[i]? = pixels[i]? := by
  induction n with
  | zero =>
    exact ⟨pixels, stack, rfl, hstack, rfl, fun l hl => absurd hl (Nat.not_lt_zero l),
      fun _ _ => rfl⟩
  | succ n ih =>
    obtain ⟨before, cells, hrun, hcells, hlength, hdone, hrest⟩ := ih (by omega)
    have hnew : ∀ k ≤ last, before[positions n k]? = some (rows n k) := by
      intro k hk
      rw [hrest, hrow n (by omega) k hk]
      intro l hl k' hk' heq
      have hln := (hinj l (by omega) k' hk' n (by omega) k hk heq).1
      omega
    obtain ⟨after, cells', hline, hblurred, hcells'⟩ := blurLine_eq hnew
      (fun k hk l hl heq => (hinj n (by omega) k hk n (by omega) l hl heq).2) hradius hcells
    refine ⟨after, cells', ?_, hcells', hblurred.length.trans hlength, ?_, ?_⟩
    · rw [List.range_succ, List.foldlM_append, hrun]
      simp only [Option.bind_eq_bind, Option.bind_some, List.foldlM_cons, List.foldlM_nil, hline]
      rfl
    · intro l hl k hk
      rcases Nat.lt_succ_iff_lt_or_eq.mp hl with hlt | rfl
      · rw [hblurred.rest, hdone l hlt k hk]
        intro k' hk' heq
        have hln := (hinj n (by omega) k' hk' l (by omega) k hk heq).1
        omega
      · exact hblurred.done k hk
    · intro i hi
      rw [hblurred.rest i fun k hk => hi n (Nat.lt_succ_self n) k hk]
      exact hrest i fun l hl k hk => hi l (Nat.lt_succ_of_lt hl) k hk

end line

/-! ### Images -/

namespace QImage

variable (image : QImage)

variable {x y : ℕ}

lemma position_lt (hx : x < image.width) (hy : y < image.height) :
    y * image.width + x < image.bits.length := by
  rw [image.size, Nat.mul_comm image.width]
  calc y * image.width + x < y * image.width + image.width := Nat.add_lt_add_left hx _
    _ = (y + 1) * image.width := (Nat.succ_mul y _).symm
    _ ≤ image.height * image.width := Nat.mul_le_mul_right _ hy

lemma position_inj {x' y' : ℕ} (hx : x < image.width) (hx' : x' < image.width)
    (h : y * image.width + x = y' * image.width + x') : y = y' ∧ x = x' := by
  have hrow : ∀ y x, x < image.width → (y * image.width + x) / image.width = y := by
    intro y x hx
    rw [Nat.mul_comm, Nat.mul_add_div image.width_pos, Nat.div_eq_of_lt hx, Nat.add_zero]
  have hy : y = y' := by rw [← hrow y x hx, h, hrow y' x' hx']
  subst hy
  exact ⟨rfl, Nat.add_left_cancel h⟩

end QImage

section image

variable {image : QImage} {pixels : List UInt32} {alpha : ℕ → ℕ → UInt32} {stack : List ℕ}
  {radius : ℕ}

/-- The pixels of an image, by column and row. -/
structure Shows (image : QImage) (pixels : List UInt32) (alpha : ℕ → ℕ → UInt32) : Prop where
  length : pixels.length = image.bits.length
  pixel : ∀ y < image.height, ∀ x < image.width,
    pixels[y * image.width + x]? = some (alpha x y)

lemma blurHorizontal_eq (h : Shows image pixels alpha) (hradius : radius ≤ 254)
    (hstack : stack.length = 2 * radius + 1) :
    ∃ after cells, blurHorizontal image.width image.height pixels stack (2 * radius + 1) radius =
        some (after, cells) ∧ cells.length = 2 * radius + 1 ∧
      Shows image after fun x y =>
        shadow (blurred radius (fun x => qAlpha (alpha x y)) (image.width - 1) x) := by
  have hwidth : image.width - 1 + 1 = image.width := Nat.sub_add_cancel image.width_pos
  have hlt : ∀ {x}, x ≤ image.width - 1 → x < image.width := fun {x} hx => by omega
  obtain ⟨after, cells, hrun, hcells, hlength, hdone, -⟩ := blurLines_eq
    (fun y x => y * image.width + x) (fun y x => alpha x y) (image.width - 1)
    (Nat.le_refl image.height)
    (fun y hy x hx => h.pixel y hy x (hlt hx))
    (fun y _ x hx y' _ x' hx' heq => image.position_inj (hlt hx) (hlt hx') heq)
    (Nat.lt_succ_of_le hradius) hstack
  rw [hwidth] at hrun
  exact ⟨after, cells, hrun, hcells, hlength.trans h.length,
    fun y hy x hx => hdone y hy x (by omega)⟩

lemma blurVertical_eq (h : Shows image pixels alpha) (hradius : radius ≤ 254)
    (hstack : stack.length = 2 * radius + 1) :
    ∃ after cells, blurVertical image.width image.height pixels stack (2 * radius + 1) radius =
        some (after, cells) ∧ cells.length = 2 * radius + 1 ∧
      Shows image after fun x y =>
        shadow (blurred radius (fun y => qAlpha (alpha x y)) (image.height - 1) y) := by
  have hheight : image.height - 1 + 1 = image.height := Nat.sub_add_cancel image.height_pos
  have hlt : ∀ {y}, y ≤ image.height - 1 → y < image.height := fun {y} hy => by
    have hpos := image.height_pos
    omega
  obtain ⟨after, cells, hrun, hcells, hlength, hdone, -⟩ := blurLines_eq
    (fun x y => y * image.width + x) alpha (image.height - 1) (Nat.le_refl image.width)
    (fun x hx y hy => h.pixel y (hlt hy) x hx)
    (fun x hx y _ x' hx' y' _ heq => (image.position_inj hx hx' heq).symm)
    (Nat.lt_succ_of_le hradius) hstack
  rw [hheight] at hrun
  exact ⟨after, cells, hrun, hcells, hlength.trans h.length,
    fun y hy x hx => hdone x hx y (by omega)⟩

end image

def QImage.pixel (image : QImage) (x y : ℕ) : UInt32 := image.bits.getD (y * image.width + x) 0

lemma QImage.shows (image : QImage) : Shows image image.bits image.pixel where
  length := rfl
  pixel := by
    intro y hy x hx
    have hlt := image.position_lt hx hy
    rw [QImage.pixel, List.getD_eq_getElem _ _ hlt]
    exact List.getElem?_eq_getElem hlt

/-- **The blur is exact**: in every row, and in every column, the alpha channel of a pixel becomes
the weighted sum of its neighbours, with no sum and no product larger than 32 bits. -/
theorem blur_exact (image : QImage) {radius : ℕ} (hradius : 1 ≤ radius ∧ radius ≤ 254)
    {stack : List ℕ} (hstack : stack.length = 2 * radius + 1) :
    (∃ after cells, blurHorizontal image.width image.height image.bits stack (2 * radius + 1)
        radius = some (after, cells) ∧
      ∀ y < image.height, ∀ x < image.width,
        (after[y * image.width + x]?).map qAlpha =
          some (blurred radius (fun x => qAlpha (image.pixel x y)) (image.width - 1) x) ∧
        blurred radius (fun x => qAlpha (image.pixel x y)) (image.width - 1) x ≤ 255) ∧
    (∃ after cells, blurVertical image.width image.height image.bits stack (2 * radius + 1)
        radius = some (after, cells) ∧
      ∀ y < image.height, ∀ x < image.width,
        (after[y * image.width + x]?).map qAlpha =
          some (blurred radius (fun y => qAlpha (image.pixel x y)) (image.height - 1) y) ∧
        blurred radius (fun y => qAlpha (image.pixel x y)) (image.height - 1) y ≤ 255) := by
  have hlt : radius < 255 := Nat.lt_succ_of_le hradius.2
  constructor
  · obtain ⟨after, cells, hrun, -, hafter⟩ := blurHorizontal_eq image.shows hradius.2 hstack
    refine ⟨after, cells, hrun, fun y hy x hx => ?_⟩
    have hle : blurred radius (fun x => qAlpha (image.pixel x y)) (image.width - 1) x ≤ 255 :=
      blurred_le hlt fun _ => qAlpha_le _
    rw [hafter.pixel y hy x hx, Option.map_some, qAlpha_shadow _ hle]
    exact ⟨rfl, hle⟩
  · obtain ⟨after, cells, hrun, -, hafter⟩ := blurVertical_eq image.shows hradius.2 hstack
    refine ⟨after, cells, hrun, fun y hy x hx => ?_⟩
    have hle : blurred radius (fun y => qAlpha (image.pixel x y)) (image.height - 1) y ≤ 255 :=
      blurred_le hlt fun _ => qAlpha_le _
    rw [hafter.pixel y hy x hx, Option.map_some, qAlpha_shadow _ hle]
    exact ⟨rfl, hle⟩

/-- A row shorter than the radius. -/
theorem blur_short_row : ∃ after cells, blurHorizontal 2 1 [0xff000000, 0x40ffffff]
    (List.replicate 7 0) 7 3 = some (after, cells) ∧
      (after[0]?).map qAlpha = some (blurred 3
        (fun x => qAlpha ([0xff000000, 0x40ffffff].getD (0 * 2 + x) 0)) 1 0) := by
  obtain ⟨after, cells, hrun, hafter⟩ := (blur_exact ⟨2, 1, [0xff000000, 0x40ffffff], rfl,
    by decide, by decide⟩ (show 1 ≤ 3 ∧ 3 ≤ 254 by decide) (List.length_replicate (a := 0))).1
  exact ⟨after, cells, hrun, (hafter 0 (by decide) 0 (by decide)).1⟩

/-- **The shadow of an image**: its alpha channel is blurred exactly, first in the rows, then in the
columns. -/
theorem stackBlur_pixels (image : QImage) (hradius : radius ≤ 254) {stack : List ℕ}
    (hstack : stack.length = 2 * radius + 1) :
    ∃ after, stackBlur image stack radius = some after ∧
      Shows image after fun x y => shadow (blurred radius (fun y =>
        blurred radius (fun x => qAlpha (image.pixel x y)) (image.width - 1) x)
          (image.height - 1) y) := by
  obtain ⟨rows, cells, hrun, hcells, hrows⟩ := blurHorizontal_eq image.shows hradius hstack
  obtain ⟨after, cells', hrun', -, hafter⟩ := blurVertical_eq hrows hradius hcells
  have hlt : radius < 255 := Nat.lt_succ_of_le hradius
  refine ⟨after, by simp only [stackBlur, hrun, hrun', Option.bind_eq_bind, Option.bind_some], ?_⟩
  simp only [qAlpha_shadow _ (blurred_le hlt fun _ => qAlpha_le _)] at hafter
  exact hafter

theorem stackBlur_column : ∃ after,
    stackBlur ⟨1, 2, [0xff000000, 0x40ffffff], rfl, by decide, by decide⟩ [0, 0, 0] 1 = some after ∧
      after.length = 2 := by
  obtain ⟨after, hrun, hafter⟩ := stackBlur_pixels
    ⟨1, 2, [0xff000000, 0x40ffffff], rfl, by decide, by decide⟩ (show 1 ≤ 254 by decide)
    (show [0, 0, 0].length = 2 * 1 + 1 from rfl)
  exact ⟨after, hrun, hafter.length⟩

end KioExtras.Thumbnail.ImageFilter
