import CommandFile.Expansion
import CommandFile.Text.Integer
import CommandFile.Text.Literal
set_option autoImplicit false

namespace CommandFile

structure PassCap where
  passes : Nat
  passes_pos : 0 < passes
  deriving DecidableEq

inductive CapError where
  | numberNotPositive
  | notInteger (value : String)
  | notPositive (value : Int)
  deriving DecidableEq

def CapError.message : CapError → String
  | .numberNotPositive => "max_passes must be positive"
  | .notInteger value => "CMDFILE_MAX_PASSES must be an integer, got " ++ Text.literal value
  | .notPositive value => "CMDFILE_MAX_PASSES must be positive, got " ++ toString value

namespace PassCap

def default : PassCap := ⟨defaultCap, by decide⟩

def ofInt? (n : Int) : Option PassCap :=
  if h : 0 < n.toNat then some ⟨n.toNat, h⟩ else none

theorem ofInt?_natCast (n : Nat) (h : 0 < n) : ofInt? n = some ⟨n, h⟩ := by
  simp [ofInt?, h]

/-- The cap that a value of the environment variable stands for. A blank value stands for none. -/
def ofEnvironment (value : Option String) : Except CapError PassCap :=
  match value with
  | none => .ok default
  | some text =>
    if Text.strip text = "" then .ok default
    else match Text.integer? text with
      | none => .error (.notInteger text)
      | some n =>
        match ofInt? n with
        | some cap => .ok cap
        | none => .error (.notPositive n)

def choose (number : Option Int) (environment : Option String) : Except CapError PassCap :=
  match number with
  | none => ofEnvironment environment
  | some n =>
    match ofInt? n with
    | some cap => .ok cap
    | none => .error .numberNotPositive

end PassCap
end CommandFile
