/-
The Mersenne twister on 624 words of 32 bits: a word is mixed from three old ones, and tempered
before it is handed out. A scalar is made of 53 bits of two words; a position below a count is the
first of the words, cut to the bits needed, that is below it.
-/
import StrategyLab.Search.Sampling

namespace StrategyLab

/-- The words of the generator, and how many of them have been handed out. -/
structure Twister where
  words : Array UInt32
  used : Nat
  deriving Inhabited

namespace Twister

/-! ## State -/

/-- The number of words. -/
def size : Nat := 624

/-- The distance of the third word that goes into a new one. -/
def distance : Nat := 397

/-- The word at a position. -/
def wordAt (words : Array UInt32) (i : Nat) : UInt32 := words.getD (i % size) 0

/-- The word after one with the given position in the initial state. -/
def nextSeed (previous : UInt32) (position : Nat) : UInt32 :=
  (1812433253 : UInt32) * (previous ^^^ (previous >>> (30 : UInt32))) + position.toUInt32

/-- The initial words, each made from the one before. -/
def seedWords (seed : UInt32) : Array UInt32 :=
  (List.range (size - 1)).foldl (fun words i => words.push (nextSeed (wordAt words i) (i + 1)))
    #[seed]

/-- The generator with a seed. -/
def ofSeed (seed : UInt32) : Twister := { words := seedWords seed, used := size }

/-- The generator with a seed that has to fit in a word. -/
def ofSeed? {α : Type} (seed : Int) : Except (Fault α) Twister :=
  if 0 ≤ seed ∧ seed < Int.pow 2 32 then pure (ofSeed seed.toNat.toUInt32)
  else throw (.request .seedOutOfRange)

/-! ## Words -/

/-- A new word from the upper bit of one, the lower bits of the next, and a distant one. -/
def mix (word next distant : UInt32) : UInt32 :=
  let y := (word &&& 0x80000000) ||| (next &&& 0x7fffffff)
  distant ^^^ (y >>> 1) ^^^ (if y &&& 1 = 1 then 0x9908b0df else 0)

/-- Replaces all words in order. -/
def renew (words : Array UInt32) : Array UInt32 :=
  (List.range size).foldl (fun ws i =>
    ws.setIfInBounds i (mix (wordAt ws i) (wordAt ws (i + 1)) (wordAt ws (i + distance)))) words

/-- Spreads the bits of a word. -/
def temper (w : UInt32) : UInt32 :=
  let a := w ^^^ (w >>> 11)
  let b := a ^^^ ((a <<< 7) &&& 0x9d2c5680)
  let c := b ^^^ ((b <<< 15) &&& 0xefc60000)
  c ^^^ (c >>> 18)

/-- The next word. -/
def next (t : Twister) : UInt32 × Twister :=
  let ready := if t.used < size then t else { words := renew t.words, used := 0 }
  (temper (wordAt ready.words ready.used), { ready with used := ready.used + 1 })

/-! ## Draws -/

/-- The scalar of 53 bits: 27 of one word and 26 of the next. -/
def unit {α : Type} [Scalar α] (t : Twister) : α × Twister :=
  let (a, t) := t.next
  let (b, t) := t.next
  let bits := (a >>> 5).toNat * 67108864 + (b >>> 6).toNat
  (Scalar.ofNat bits / 9007199254740992.0, t)

/-- The smallest number of the form `2 ^ k - 1` that is not below a bound. -/
def maskFor (bound : Nat) : Nat := Nat.pow 2 (Nat.log2 bound + 1) - 1

/-- Draws words until one, cut to a mask, is below a count. At least every second word is, so
that the draws given do not run out in practice; if they did, the position would be the first. -/
def belowWithin (n mask : Nat) : Nat → Twister → Nat × Twister
  | 0, t => (0, t)
  | draws + 1, t =>
    let (w, t) := t.next
    let candidate := w.toNat &&& mask
    if candidate < n then (candidate, t) else belowWithin n mask draws t

/-- The draws given for one position. -/
def drawLimit : Nat := 4096

/-- A position below a count; below one there is nothing to draw. -/
def below (n : Nat) (t : Twister) : Nat × Twister :=
  if n ≤ 1 then (0, t) else belowWithin n (maskFor (n - 1)) drawLimit t

theorem belowWithin_lt {n mask : Nat} (hn : 0 < n) (draws : Nat) (t : Twister) :
    (belowWithin n mask draws t).1 < n := by
  induction draws generalizing t with
  | zero => simpa [belowWithin] using hn
  | succ draws ih =>
    simp only [belowWithin]
    split
    · assumption
    · exact ih _

theorem below_lt {n : Nat} (hn : 0 < n) (t : Twister) : (below n t).1 < n := by
  unfold below
  split
  · exact hn
  · exact belowWithin_lt hn _ _

instance {α : Type} [Scalar α] : RandomSource Twister α where
  unit := unit
  below := below

end Twister

end StrategyLab
