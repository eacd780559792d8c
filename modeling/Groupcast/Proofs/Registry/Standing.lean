import Groupcast.Catalogue.Dialect
import Groupcast.Proofs.Catalogue.Payload
import Groupcast.Proofs.Message.Congruence
import Groupcast.Proofs.Reading.Standing
import Groupcast.Proofs.Registry.Growth

/-!
# What was understood stays understood

An application may register more kinds at any time. Whatever calls are made, in vain or not, an
input that was read before is read alike, and an input that was refused is refused alike, unless it
was refused for want of a kind that is there now. The same holds of payloads, those of the
application included that decode payloads held in their own encoding.
-/

namespace Groupcast

/-! ## Calls -/

namespace Registry

variable {D : Dialect}

/-- A call that registers a kind. -/
inductive Call (D : Dialect) where
  | message (kind : UInt8) (blank : D.Custom)
  | header (kind : UInt16) (blank : Record D)
  | object (kind : UInt16) (blank : Record D)

/-- What comes of a call, and the registry afterwards. -/
def register (r : Registry D) : Call D → Except RegistryError Unit × Registry D
  | .message kind blank => r.addMessage kind blank
  | .header kind blank => r.addHeader kind blank
  | .object kind blank => r.addObject kind blank

/-- The registry after some calls. -/
def afterCalls (r : Registry D) (calls : List (Call D)) : Registry D :=
  calls.foldl (fun r call => (r.register call).2) r

/-- A call is a step of growth. -/
theorem Grows.register {r r' : Registry D} (hgrown : r.Grows r') (call : Call D) :
    r.Grows (r'.register call).2 := by
  cases call with
  | message kind blank => exact hgrown.message kind blank
  | header kind blank => exact hgrown.header kind blank
  | object kind blank => exact hgrown.object kind blank

/-- Calls let a registry grow. Induction on the calls. -/
theorem grows_afterCalls (r : Registry D) (calls : List (Call D)) :
    r.Grows (r.afterCalls calls) := by
  suffices hgrows : ∀ r', r.Grows r' → r.Grows (r'.afterCalls calls) from hgrows r .refl
  induction calls with
  | nil =>
    intro r' hgrown
    exact hgrown
  | cons call calls ih =>
    intro r' hgrown
    exact ih _ (hgrown.register call)

end Registry

namespace PayloadRegistry

variable {π : Type}

/-- The registry after some calls, each of which names a kind and its blank payload. -/
def afterCalls (r : PayloadRegistry π) (calls : List (UInt8 × π)) : PayloadRegistry π :=
  calls.foldl (fun r call => (r.add call.1 call.2).2) r

/-- A payload that is found stays found. Induction on the calls. -/
theorem blank_afterCalls {r : PayloadRegistry π} {kind : UInt8} {blank : Payload π}
    (hfound : r.blank kind = .ok blank) (calls : List (UInt8 × π)) :
    (r.afterCalls calls).blank kind = .ok blank := by
  induction calls generalizing r with
  | nil => exact hfound
  | cons call calls ih =>
    refine ih ?_
    exact blank_eq_ok.mpr (KindTable.get?_insertAboveReserved_of_eq_some (blank_eq_ok.mp hfound))

end PayloadRegistry

/-! ## Messages -/

variable {D : Dialect}

/-- Whether an error is the want of a kind that a registry has. -/
def DecodeError.CuredBy (r : Registry D) : DecodeError → Prop
  | .unknownMessageKind kind => r.messages.contains kind
  | .unknownHeaderKind kind => r.headers.contains kind
  | .unknownObjectKind kind => r.objects.contains kind
  | _ => False

/-- What is looked up in a registry stands in one that has grown of it. -/
theorem Registry.Grows.related {r r' : Registry D} (hgrown : r.Grows r') :
    r.Related (Reading.Stands (DecodeError.CuredBy r')) r' where
  body _ _ _ _ hnext := Reading.stands_lookup (fun _ => hgrown.body_eq_ok)
    (fun _ => body_eq_error) (fun _ => body_eq_error) id hnext
  header _ _ _ _ hnext := Reading.stands_lookup (fun _ => hgrown.header_eq_ok)
    (fun _ => header_eq_error) (fun _ => header_eq_error) id hnext
  object _ _ _ _ hnext := Reading.stands_lookup (fun _ => hgrown.object_eq_ok)
    (fun _ => object_eq_error) (fun _ => object_eq_error) id hnext
  refill_header _ := Reading.stands_refl _
  refill_object _ := Reading.stands_refl _
  refill_custom _ := BodyScript.respects_stands _ _

/-- What a registry makes of an input stands when the registry has grown. -/
theorem Message.read_of_grows {r r' : Registry D} (hgrown : r.Grows r') {w : Bytes}
    (hstands : ∀ error, (read r w).1 = .error error → ¬ error.CuredBy r') :
    read r' w = read r w :=
  reading_related (Reading.stands_congruence _) hgrown.related _ _ w hstands

/-! ## Payloads -/

variable {π : Type}

/-- Whether an error is the want of a payload kind that a registry has. -/
def DecodeError.CuredByPayloads (r : PayloadRegistry π) : DecodeError → Prop
  | .unknownPayloadKind kind => r.contains kind
  | _ => False

namespace Payload

variable (custom custom' : CustomPayload π) {r r' : PayloadRegistry π}
  (hrefill : ∀ s, Reading.Stands (DecodeError.CuredByPayloads r') (custom.refill s)
    (custom'.refill s))

include hrefill

/-- A blank is refilled to what stands, if what lies in it is. -/
theorem refill_stands {inner inner' : Option (Reading (Payload π))}
    (hinner : Option.Rel (Reading.Stands (DecodeError.CuredByPayloads r') (α := Payload π))
      inner inner') (blank : Payload π) :
    Reading.Stands (DecodeError.CuredByPayloads r') (@refill π custom inner blank)
      (@refill π custom' inner' blank) := by
  have hrel := Reading.stands_congruence (DecodeError.CuredByPayloads r')
  cases blank with
  | bytes view => exact Reading.stands_refl _
  | custom s => exact hrel.map _ (hrefill s)
  | composite children =>
    cases hinner with
    | none => exact Reading.stands_refl _
    | some hreading =>
      exact hrel.bind hrel.u16 fun count => hrel.map _ (hrel.times hreading count.toNat)

/-- Payloads that are read stand in a registry that keeps the blanks found, if the payloads of the
application do. Induction on the levels left. -/
theorem readingWithin_stands
    (hkept : ∀ kind blank, r.blank kind = .ok blank → r'.blank kind = .ok blank) (levels : Nat) :
    Reading.Stands (DecodeError.CuredByPayloads r') (@readingWithin π custom r levels)
      (@readingWithin π custom' r' levels) := by
  have hrel := Reading.stands_congruence (DecodeError.CuredByPayloads r')
  have hbehind : ∀ {inner inner' : Option (Reading (Payload π))},
      Option.Rel (Reading.Stands (DecodeError.CuredByPayloads r') (α := Payload π)) inner inner' →
      ∀ kind, Reading.Stands (DecodeError.CuredByPayloads r')
        ((Reading.ofExcept (r.blank kind)).bind (@refill π custom inner))
        ((Reading.ofExcept (r'.blank kind)).bind (@refill π custom' inner')) := by
    intro inner inner' hinner kind
    exact Reading.stands_lookup (hkept kind) (fun _ => PayloadRegistry.blank_eq_error)
      (fun _ => PayloadRegistry.blank_eq_error) id
      fun blank _ => refill_stands custom custom' hrefill hinner blank
  induction levels with
  | zero => exact hrel.bind hrel.u8 (hbehind .none)
  | succ levels ih => exact hrel.bind hrel.u8 (hbehind (.some ih))

end Payload

/-! ### Payloads that hold encodings -/

/-- How a payload of the application is read that may hold encodings of other payloads: bytes of its
own, and payloads decoded from bytes. -/
inductive PayloadScript (π σ : Type) where
  | done (state : σ)
  | fail (error : DecodeError)
  | take (how : Transfer) (count : Nat) (next : Bytes → PayloadScript π σ)
  | ask (next : Nat → PayloadScript π σ)
  /-- Decodes a payload from bytes at hand. -/
  | payload (wire : Bytes) (next : Payload π → PayloadScript π σ)

namespace PayloadScript

variable {σ : Type}

/-- The script that decodes no payloads. -/
def ofReading : Reading σ → PayloadScript π σ
  | .done state => done state
  | .fail error => fail error
  | .take how count next => take how count fun bytes => ofReading (next bytes)
  | .ask next => ask fun left => ofReading (next left)

/-- Runs a script with a decoder for the payloads held. -/
def reading (decode : Bytes → Except DecodeError (Payload π)) : PayloadScript π σ → Reading σ
  | done state => .done state
  | fail error => .fail error
  | take how count next => .take how count fun bytes => (next bytes).reading decode
  | ask next => .ask fun left => (next left).reading decode
  | payload wire next => (Reading.ofExcept (decode wire)).bind fun p => (next p).reading decode

theorem reading_ofReading (decode : Bytes → Except DecodeError (Payload π)) (a : Reading σ) :
    (ofReading a).reading decode = a := by
  induction a with
  | done state => rfl
  | fail error => rfl
  | take how count next ih => simp only [ofReading, reading, ih]
  | ask next ih => simp only [ofReading, reading, ih]

/-- A script stands as far as the decoder for the payloads held does: it passes on its errors. -/
theorem reading_stands {cured : DecodeError → Prop}
    {decode decode' : Bytes → Except DecodeError (Payload π)}
    (hdecode : ∀ wire, (∀ error, decode wire = .error error → ¬ cured error) →
      decode' wire = decode wire) (script : PayloadScript π σ) :
    Reading.Stands cured (script.reading decode) (script.reading decode') := by
  have hrel := Reading.stands_congruence cured
  induction script with
  | done state => exact hrel.done state
  | fail error => exact hrel.fail error
  | take how count next ih => exact hrel.take how count fun bytes => ih bytes
  | ask next ih =>
    intro source hstands
    exact ih source.length source hstands
  | payload wire next ih =>
    refine hrel.bind ?_ ih
    intro source hstands
    have hsame : decode' wire = decode wire := by
      apply hdecode
      intro error herror
      apply hstands error
      rw [herror]
      rfl
    rw [hsame]

end PayloadScript

/-- The payloads of an application, refilled in another way. -/
@[reducible] def CustomPayload.withRefill [CustomPayload π] (refill : π → Reading π) :
    CustomPayload π :=
  { ‹CustomPayload π› with refill := refill }

namespace Payload

variable [CustomPayload π]

/-- The payload that a byte string encodes, where payloads of the application are refilled by
scripts. With each encoding held in another a unit of fuel is spent. -/
def deserializeWith (script : π → PayloadScript π π) (r : PayloadRegistry π) :
    (fuel : Nat) → Bytes → Except DecodeError (Payload π)
  | 0, _ => .error (.truncated 1 0)
  | fuel + 1, wire =>
    let _ := CustomPayload.withRefill fun s => (script s).reading (deserializeWith script r fuel)
    deserialize r wire

/-- Where no encodings are held, this is what the byte string encodes. -/
theorem deserializeWith_ofReading (r : PayloadRegistry π) (fuel : Nat) (wire : Bytes) :
    deserializeWith (fun s => .ofReading (CustomPayload.refill s)) r (fuel + 1) wire
      = deserialize r wire := by
  have hrefill : (fun s => (PayloadScript.ofReading (CustomPayload.refill s)).reading
      (deserializeWith (fun s => .ofReading (CustomPayload.refill s)) r fuel))
        = (CustomPayload.refill : π → Reading π) := by
    funext s
    exact PayloadScript.reading_ofReading _ _
  unfold deserializeWith
  rw [hrefill]

/-- What is decoded stands in a registry that keeps the blanks found. Induction on the fuel. -/
theorem deserializeWith_stands (script : π → PayloadScript π π) {r r' : PayloadRegistry π}
    (hkept : ∀ kind blank, r.blank kind = .ok blank → r'.blank kind = .ok blank) (fuel : Nat)
    (wire : Bytes) (hstands : ∀ error, deserializeWith script r fuel wire = .error error →
      ¬ error.CuredByPayloads r') :
    deserializeWith script r' fuel wire = deserializeWith script r fuel wire := by
  induction fuel generalizing wire with
  | zero => rfl
  | succ fuel ih =>
    have hreading := readingWithin_stands
      (CustomPayload.withRefill fun s => (script s).reading (deserializeWith script r fuel))
      (CustomPayload.withRefill fun s => (script s).reading (deserializeWith script r' fuel))
      (fun s => PayloadScript.reading_stands ih (script s)) hkept maxNesting
    exact hreading.runExactly hstands

end Payload

/-! ## Later registrations -/

/-- Registering more kinds never changes the meaning of what was understood. Whatever calls are made
on a registry, an input comes out as before, with the same bytes left, if it was not refused for
want of a kind, or for want of one that is still missing. So do payloads, those of an application
included that are read by scripts and may hold encodings of others. -/
theorem outcome_afterCalls {D : Dialect} {π : Type} [CustomPayload π] :
    (∀ (r : Registry D) (calls : List (Registry.Call D)) (w : Bytes),
      (∀ kind, (Message.read r w).1 = .error (.unknownMessageKind kind) →
        ¬ (r.afterCalls calls).messages.contains kind) →
      (∀ kind, (Message.read r w).1 = .error (.unknownHeaderKind kind) →
        ¬ (r.afterCalls calls).headers.contains kind) →
      (∀ kind, (Message.read r w).1 = .error (.unknownObjectKind kind) →
        ¬ (r.afterCalls calls).objects.contains kind) →
      Message.read (r.afterCalls calls) w = Message.read r w) ∧
    (∀ (r : PayloadRegistry π) (calls : List (UInt8 × π)) (w : Bytes),
      (∀ kind, Payload.deserialize r w = .error (.unknownPayloadKind kind) →
        ¬ (r.afterCalls calls).contains kind) →
      Payload.deserialize (r.afterCalls calls) w = Payload.deserialize r w) ∧
    (∀ (script : π → PayloadScript π π) (r : PayloadRegistry π) (calls : List (UInt8 × π))
      (fuel : Nat) (w : Bytes),
      (∀ kind, Payload.deserializeWith script r fuel w = .error (.unknownPayloadKind kind) →
        ¬ (r.afterCalls calls).contains kind) →
      Payload.deserializeWith script (r.afterCalls calls) fuel w
        = Payload.deserializeWith script r fuel w) := by
  have hscript : ∀ (script : π → PayloadScript π π) (r : PayloadRegistry π)
      (calls : List (UInt8 × π)) (fuel : Nat) (w : Bytes),
      (∀ kind, Payload.deserializeWith script r fuel w = .error (.unknownPayloadKind kind) →
        ¬ (r.afterCalls calls).contains kind) →
      Payload.deserializeWith script (r.afterCalls calls) fuel w
        = Payload.deserializeWith script r fuel w := by
    intro script r calls fuel w hmissing
    apply Payload.deserializeWith_stands
    · intro kind blank hfound
      exact PayloadRegistry.blank_afterCalls hfound calls
    · intro error herror
      cases error with
      | unknownPayloadKind kind => exact hmissing kind herror
      | _ => exact not_false
  refine ⟨?_, ?_, hscript⟩
  · intro r calls w hmessage hheader hobject
    apply Message.read_of_grows (r.grows_afterCalls calls)
    intro error herror
    cases error with
    | unknownMessageKind kind => exact hmessage kind herror
    | unknownHeaderKind kind => exact hheader kind herror
    | unknownObjectKind kind => exact hobject kind herror
    | _ => exact not_false
  · intro r calls w hmissing
    have hplain := hscript (fun s => .ofReading (CustomPayload.refill s)) r calls 1 w
    simp only [Payload.deserializeWith_ofReading] at hplain
    exact hplain hmissing

namespace Catalogue

/-- Calls of which the first names a reserved kind, and the third one that is taken by then. -/
def laterCalls : List (Registry.Call dialect) :=
  [.message 3 (Custom.counter 3 0), .message 40 (Custom.counter 40 0),
    .message 40 (Custom.wrap 40), .header 1001 (.item (Item.seq 0))]

/-- Counters that hold the encoding of a payload, in six bytes. -/
def holding : Datum → PayloadScript Datum Datum
  | .counter kind _ => .take .handed 6 fun wire => .payload wire fun p =>
      .done (.blob kind (.whole p.leaves.flatten))
  | .blob kind view => .done (.blob kind view)

/-- A message without payload, and one of a kind that is still missing, are read as before the
calls; one of a kind that has been added is not. Payloads are too, one that holds another among
them. -/
theorem outcome_afterCalls_later :
    Message.read (Registry.builtin.afterCalls laterCalls)
          ([2, 0, 0, 0, 0, 0, 0, 0, 0, 0, 7] : Bytes)
        = (.ok (.ofBody .empty), [7]) ∧
      Message.read (Registry.builtin.afterCalls laterCalls) ([41, 7] : Bytes)
        = (.error (.unknownMessageKind 41), [7]) ∧
      Message.read (Registry.builtin (D := dialect)) ([40, 7] : Bytes)
        = (.error (.unknownMessageKind 40), [7]) ∧
      Message.read (Registry.builtin.afterCalls laterCalls) ([40, 7] : Bytes)
        = (.error (.truncated 2 1), [7]) ∧
      Payload.deserialize (payloadRegistry.afterCalls [(50, .counter 50 0)]) [41, 0, 0, 0, 1, 9]
        = .ok (.custom (.blob 41 (.whole [9]))) ∧
      Payload.deserializeWith holding (payloadRegistry.afterCalls [(50, .counter 50 0)]) 2
        [40, 1, 0, 0, 0, 1, 9] = .ok (.custom (.blob 40 (.whole [9]))) := by
  obtain ⟨hmessage, hpayload, hscript⟩ := outcome_afterCalls (D := dialect) (π := Datum)
  have hread : Message.read (Registry.builtin (D := dialect))
      ([2, 0, 0, 0, 0, 0, 0, 0, 0, 0, 7] : Bytes) = (.ok (.ofBody .empty), [7]) := rfl
  have hmissing : Message.read (Registry.builtin (D := dialect)) ([41, 7] : Bytes)
      = (.error (.unknownMessageKind 41), [7]) := rfl
  have hblob : Payload.deserialize payloadRegistry [41, 0, 0, 0, 1, 9]
      = .ok (.custom (.blob 41 (.whole [9]))) := rfl
  have hheld : Payload.deserializeWith holding payloadRegistry 2 [40, 1, 0, 0, 0, 1, 9]
      = .ok (.custom (.blob 40 (.whole [9]))) := rfl
  have hstill : ¬ (Registry.builtin.afterCalls laterCalls).messages.contains 41 := by decide
  refine ⟨?_, ?_, rfl, rfl, ?_, ?_⟩
  · rw [hmessage _ laterCalls, hread]
    all_goals
      rw [hread]
      rintro kind ⟨⟩
  · rw [hmessage _ laterCalls, hmissing]
    all_goals
      rw [hmissing]
      rintro kind ⟨⟩
    exact hstill
  · rw [hpayload, hblob]
    rw [hblob]
    rintro kind ⟨⟩
  · rw [hscript, hheld]
    rw [hheld]
    rintro kind ⟨⟩

end Catalogue

end Groupcast
