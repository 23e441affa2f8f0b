import Ns3.Rlc.UmReceiver

/-!
# SDUs put together wrongly

Over a MAC that keeps order, with fewer than 512 PDUs lost in a row, what the
receiving side delivers are accepted SDUs, as long as `PacketDeadlineTimer`
takes no SDU that has been begun and no key is left behind in the reception
buffer. `rest_removed` is a run in which the timer takes one.
-/

namespace Ns3.Rlc.UmReceiver

/-- A run of the receiving side over the PDUs of a transmitting side, of which
the first `next` have been received or lost, with the packets delivered. It
knows nothing of the transmitting side but its PDUs, so those sent later need
not be told apart. -/
inductive Receives (allowed : UmReceiver → (sn : Nat) → Prop) (sent : List Packet) :
    Nat → UmReceiver → List Packet → Prop
  | start : Receives allowed sent 0 create []
  | receive {next k : Nat} {r r' : UmReceiver} {delivered out : List Packet} {pdu : Packet}
      (run : Receives allowed sent next r delivered) (from_ : next ≤ k) (near : k < next + 512)
      (at_ : sent[k]? = some pdu) (ok : allowed r (k % 1024))
      (here : r.doReceivePdu pdu = some (r', out)) :
      Receives allowed sent (k + 1) r' (delivered ++ out)
  | expire {next : Nat} {r r' : UmReceiver} {delivered out : List Packet}
      (run : Receives allowed sent next r delivered) (on : r.window.reorderingTimer = true)
      (here : r.expireReorderingTimer = some (r', out)) :
      Receives allowed sent next r' (delivered ++ out)

open Framing in
theorem receives_items {frames : List (Frame UInt8)} (stream : IsStream frames) {next : Nat}
    {r : UmReceiver} {delivered : List Packet}
    (run : Receives (fun r sn => r.window.Drains sn) (encodeAll frames) next r delivered) :
    Follows frames next r ∧ delivered ⊆ items none frames := by
  induction run with
  | start => exact ⟨create_follows frames, List.nil_subset _⟩
  | receive _ from_ near at_ ok here ih =>
    obtain ⟨follows, sub⟩ := ih
    obtain ⟨f, frame, rfl⟩ : ∃ f, frames[_]? = some f ∧ encode (numbered 0 _) f = _ := by
      simpa [encodeAll] using at_
    obtain ⟨short, -⟩ := List.getElem?_eq_some_iff.mp frame
    obtain ⟨r'', out', done, follows', sub'⟩ := receive_follows stream follows from_ near short ok
    rw [pduAt_eq frame, here] at done
    obtain ⟨rfl, rfl⟩ := by simpa using done
    exact ⟨follows', List.append_subset.mpr ⟨sub, sub'⟩⟩
  | expire _ on here ih =>
    obtain ⟨follows, sub⟩ := ih
    obtain ⟨r'', out', done, follows', sub'⟩ := expire_follows stream follows on
    rw [here] at done
    obtain ⟨rfl, rfl⟩ := by simpa using done
    exact ⟨follows', List.append_subset.mpr ⟨sub, sub'⟩⟩

variable {allowed : UmReceiver → Nat → Prop} {sent : List Packet} {next : Nat} {r : UmReceiver}
  {delivered : List Packet}

section

variable (run : Receives allowed sent next r delivered)
include run

theorem Receives.received {k : Nat} {pdu : Packet}
    (from_ : next ≤ k) (near : k < next + 512) (at_ : sent[k]? = some pdu)
    (ok : allowed r (k % 1024)) (here : (r.doReceivePdu pdu).isSome = true) :
    Receives allowed sent (k + 1) ((r.doReceivePdu pdu).get here).1
      (delivered ++ ((r.doReceivePdu pdu).get here).2) :=
  run.receive from_ near at_ ok (Option.some_get here).symm

theorem Receives.expired
    (on : r.window.reorderingTimer = true) (here : r.expireReorderingTimer.isSome = true) :
    Receives allowed sent next (r.expireReorderingTimer.get here).1
      (delivered ++ (r.expireReorderingTimer.get here).2) :=
  run.expire on (Option.some_get here).symm

theorem Receives.inTurn {pdu : Packet} (at_ : sent[next]? = some pdu) (ok : allowed r (next % 1024))
    (here : (r.doReceivePdu pdu).isSome = true) :
    Receives allowed sent (next + 1) ((r.doReceivePdu pdu).get here).1
      (delivered ++ ((r.doReceivePdu pdu).get here).2) :=
  run.received (le_refl next) (by omega) at_ ok here

end

theorem second_drains : (create.window).Drains 1 := by
  intro k j hk _ outside _
  obtain rfl : k = 1 := by simpa [UmWindow.placed, UmWindow.count, create, UmWindow.create] using hk
  exact absurd outside (by decide)

/-- An entry may wait 10 ms. -/
def hurried : UmAttributes := ⟨10240, true, 0, 100, 10, false⟩

end Ns3.Rlc.UmReceiver
