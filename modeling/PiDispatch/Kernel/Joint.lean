import PiDispatch.Kernel.Program

/-! Programs that speak to two services: those of one signature run within a larger one, each of their commands marked
with what it is for, beside the commands of the other. -/
namespace PiDispatch.Kernel

@[reducible] def Signature.beside (σ τ : Signature) (L : Type) : Signature where
  Command := τ.Command ⊕ L × σ.Command
  Answer := fun
    | .inl command => τ.Answer command
    | .inr (_,command) => σ.Answer command

namespace Program
variable {σ τ : Signature} {L α β : Type}

/-- A program of `σ`, its commands marked in their order. -/
def within (τ : Signature) (mark : Nat → L) : Nat → Program σ α → Program (σ.beside τ L) α
  | _,.done value => .done value
  | index,.issue command resume =>
    @issue (σ.beside τ L) α (.inr (mark index,command)) fun answer => (resume answer).within τ mark (index + 1)

def ask (command : τ.Command) (resume : τ.Answer command → Program (σ.beside τ L) α) : Program (σ.beside τ L) α :=
  @issue (σ.beside τ L) α (.inl command) resume

end Program

end PiDispatch.Kernel
