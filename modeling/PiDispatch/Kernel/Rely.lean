import PiDispatch.Kernel.Program

/-! Programs beside others. Between two of its commands the others may do to the store what a program relies on; each of its
commands must be fit for the store it then meets. What a program keeps so it keeps beside any others that keep to it. -/
namespace PiDispatch.Kernel

/-- How commands are served, what the others may do in between, and which commands are fit for a store. -/
structure Terms (σ : Signature) (S : Type) where
  serves : S → (command : σ.Command) → σ.Answer command → S → Prop
  rely : S → S → Prop
  fits : S → σ.Command → Prop

namespace Program

variable {σ : Signature} {S α β : Type} {terms : Terms σ S}

/-- Whatever it is answered and whatever the others do, the program issues what fits and ends as `post` says. -/
def Stands (terms : Terms σ S) (post : α → S → Prop) : Program σ α → S → Prop
  | .done value,store => ∀ later, terms.rely store later → post value later
  | .issue command resume,store => ∀ later, terms.rely store later → terms.fits later command ∧
      ∀ answer next, terms.serves later command answer next → (resume answer).Stands terms post next

theorem stands_rely (trans : ∀ first second third, terms.rely first second → terms.rely second third → terms.rely first third)
    {post : α → S → Prop} {program : Program σ α} {store later : S} (stands : program.Stands terms post store)
    (between : terms.rely store later) : program.Stands terms post later := by
  cases program with
  | done value => exact fun last more => stands last (trans _ _ _ between more)
  | issue command resume => exact fun last more => stands last (trans _ _ _ between more)

theorem stands_bind {middle : α → S → Prop} {post : β → S → Prop} {program : Program σ α} {next : α → Program σ β} {store : S}
    (refl : ∀ store, terms.rely store store) (first : program.Stands terms middle store)
    (second : ∀ value later, middle value later → (next value).Stands terms post later) :
    (program.bind next).Stands terms post store := by
  induction program generalizing store with
  | done value => exact second value store (first store (refl store))
  | issue command resume ih =>
    intro later between
    obtain ⟨fits,rest⟩ := first later between
    exact ⟨fits,fun answer last served => ih answer (rest answer last served)⟩

end Program

end PiDispatch.Kernel
