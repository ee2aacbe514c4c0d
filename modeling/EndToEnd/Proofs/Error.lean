/-
  What an error tells.

  Every error is found again by its name and what it is about. So two errors of one name that are about
  the same are one error, and what holds of all errors can be checked on the list that has one of each
  name, whatever they are about.

  Proved:
  * `Error.eq_of_name_eq` and its likes: a name and what it is about tell an error.
  * `Error.code_eq_iff`: codes tell apart what names tell apart.
  * `Error.isRecoverable_iff`: trying again may help where a service failed, or the sender's card may be
    an old one.
  * `Error.ofTransport_inj`, `Error.ofDecryption_inj`: what went wrong below can be told from the error.
-/
import EndToEnd.Error.Name

namespace EndToEnd

/-! ## Names -/

/-- What is found again by two of its features is told by them. -/
theorem eq_of_found_again {α β γ : Type} {name : α → β} {subject : α → γ} {find : β → γ → Option α}
    (h : ∀ a, find (name a) (subject a) = some a) {a b : α} (hname : name a = name b)
    (hsubject : subject a = subject b) : a = b := by
  have ha := h a
  rw [hname, hsubject, h b] at ha
  exact (Option.some.inj ha).symm

theorem CryptoError.eq_of_name_eq {e e' : CryptoError} (hname : e.name = e'.name)
    (hsubject : e.subject = e'.subject) : e = e' :=
  eq_of_found_again ofName?_name hname hsubject

theorem TransportError.eq_of_name_eq {e e' : TransportError} (hname : e.name = e'.name)
    (hsubject : e.subject = e'.subject) : e = e' :=
  eq_of_found_again ofName?_name hname hsubject

theorem Error.eq_of_name_eq {e e' : Error} (hname : e.name = e'.name)
    (hsubject : e.subject = e'.subject) : e = e' :=
  eq_of_found_again ofName?_name hname hsubject

/-! ## Wordings -/

namespace TransportError

/-- The wording of an outage is no other failure's. -/
theorem message_unavailable_ne (reason : String) {s : String}
    (h : s.toList.take 8 ≠ "Backup s".toList) : (unavailable reason).message ≠ s := by
  rintro rfl
  refine h ?_
  show ("Backup store unavailable: " ++ reason).toList.take 8 = _
  simp

/-- Which failure of the backup store it was can be told from its wording. -/
theorem eq_of_message_eq {e e' : TransportError} (h : e.message = e'.message) : e = e' := by
  cases e with
  | unavailable reason =>
    cases e' with
    | unavailable reason' => exact congrArg unavailable ((String.append_right_inj _).1 h)
    | _ => exact absurd h (message_unavailable_ne reason (by decide +kernel))
  | _ =>
    cases e' with
    | unavailable reason => exact absurd h.symm (message_unavailable_ne reason (by decide +kernel))
    | _ => first | rfl | exact absurd h (by decide +kernel)

end TransportError

namespace Error

/-! ## The list of all errors -/

/-- No error is missing from the list of those that are about the same. -/
theorem mem_all (e : Error) : e ∈ all e.subject := List.mem_of_find?_eq_some e.ofName?_name

/-- What does not depend on what errors are about is had from one list for all of them. -/
theorem map_mem_all {α : Type} {f : Error → α} (hf : ∀ s s', (all s).map f = (all s').map f) (e : Error)
    (s : Subject) : f e ∈ (all s).map f := by
  rw [hf s e.subject]
  exact List.mem_map_of_mem e.mem_all

/-- Codes tell apart what names tell apart. -/
theorem code_eq_iff (e e' : Error) : e.code = e'.code ↔ e.name = e'.name := by
  let s : Subject := ⟨"", [], 0, default⟩
  have hlisted := map_mem_all (f := fun e => (e.code, e.name)) fun _ _ => rfl
  have tells : ∀ r ∈ (all s).map fun e => (e.code, e.name),
      ∀ r' ∈ (all s).map fun e => (e.code, e.name), r.1 = r'.1 ↔ r.2 = r'.2 := by decide +kernel
  exact tells _ (hlisted e s) _ (hlisted e' s)

/-! ## What to do about an error -/

/-- Trying again may help where a service failed; and where the signature is not the sender's, since the
sender's card may be an old one. -/
theorem isRecoverable_iff (e : Error) :
    e.isRecoverable = true ↔ e.kind = .transport ∨ e = .signatureVerification := by
  cases e with
  | crypto cause => cases cause <;> simp [isRecoverable, kind]
  | _ => simp [isRecoverable, kind]

/-- Where trying again may help, nobody has to decide anything. -/
theorem not_needsUser_of_isRecoverable {e : Error} (h : e.isRecoverable = true) :
    e.needsUser = false := by
  cases e <;> first | rfl | cases h

/-! ## Errors from below -/

/-- Which failure of the backup store it was can be told from the error. -/
theorem ofTransport_inj {e e' : TransportError} (h : ofTransport e = ofTransport e') : e = e' := by
  cases e <;> cases e' <;>
    first | rfl | exact TransportError.eq_of_message_eq (backupTransport.inj h) | cases h

/-- Trying again may help, unless the entry is there already: that the user has to decide. -/
theorem isRecoverable_ofTransport (e : TransportError) :
    (ofTransport e).isRecoverable = !(ofTransport e).needsUser := by
  cases e <;> rfl

/-- Which failure to open a message it was can be told from the error. -/
theorem ofDecryption_inj {e e' : CryptoError} (h : ofDecryption e = ofDecryption e') : e = e' := by
  cases e <;> cases e' <;> simp_all [ofDecryption]

/-- A signature that does not fit is of one kind, whichever error tells it. -/
theorem kind_ofDecryption (e : CryptoError) : (ofDecryption e).kind = (crypto e).kind := by
  cases e <;> rfl

end Error

end EndToEnd
