import Conference.Memory
import Conference.SampleFormat
import Conference.Single

/-! Additive soft mixing: `input + output - round (input * (output / max))`. Quiet samples
nearly add up; as the output nears the largest sample, a further contribution of its sign is
weakened, so that the sum bends towards the limit instead of leaving the range. The sum itself is
reckoned in a 64-bit word. -/
namespace Conference

/-- 64-bit words reach from `-wordEnd` to `wordEnd - 1`. -/
def wordEnd : Int := 0x8000000000000000

/-- `⌊input * (output / max) + 1/2⌋`, each operation rounded to 24 bits. Where `max` is zero,
silence overlaps with nothing and any other product is the outermost word on its side of zero. -/
def overlap (max input output : Sample) : Int :=
  let alike := decide (input < 0) == decide (output < 0)
  if max = 0 then
    if input = 0 ∨ output = 0 then 0 else if alike then wordEnd - 1 else -wordEnd
  else
    let product :=
      (Single.ofNat input.toInt.natAbs).mul
        ((Single.ofNat output.toInt.natAbs).div (Single.ofNat max.toInt.natAbs))
    if alike then product.roundUp else product.roundUpNeg

/-- The sum of two samples less their overlap. -/
def softSum (max input output : Sample) : Int :=
  input.toInt + output.toInt - overlap max input output

/-- An integer brought into `[-max, max]`. -/
def clampTo (max : Sample) (value : Int) : Sample :=
  Int32.ofInt (Max.max (-max.toInt) (Min.min max.toInt value))

/-- Folds one input sample into the running output. -/
def mixSample (max input output : Sample) : Sample := clampTo max (softSum max input output)

/-- `mixSample`, where a word holds the sum and `[-max, max]` holds a number at all. -/
def mixSample? (max input output : Sample) : Option Sample :=
  let sum := softSum max input output
  if 0 ≤ max ∧ -wordEnd ≤ sum ∧ sum < wordEnd then some (clampTo max sum) else none

/-- Folds a sample set into the running output, as far as both reach. -/
def mixSet (max : Sample) : List Sample → List Sample → List Sample
  | output :: outputs, input :: inputs =>
    mixSample max input output :: mixSet max outputs inputs
  | outputs, _ => outputs

/-- Mixes sample sets, in order, into `count` samples that start from silence. -/
def mix (sets : List (List Sample)) (format : SampleFormat) (count : Nat) :
    Except FormatError (List Sample) :=
  match format.validate with
  | .error e => .error e
  | .ok max => .ok (sets.foldl (mixSet max) (List.replicate count 0))

/-- `mix`, unless memory cannot hold the samples it starts from. -/
def mix? (sets : List (List Sample)) (format : SampleFormat) (count : Nat) :
    Option (Except FormatError (List Sample)) :=
  match format.validate with
  | .error e => some (.error e)
  | .ok _ => if Memory.holdsSamples count then some (mix sets format count) else none

end Conference
