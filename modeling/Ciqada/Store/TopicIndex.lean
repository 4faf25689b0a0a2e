import Ciqada.Store.Reopen

/-!
# The topic index along a run

The index and the byte count describe memory in every state that is reached
without moving an id to another topic.  Fresh ids are the usual case.
-/

namespace Ciqada
namespace Store

open Foundation Broker

namespace System

variable {Row : Type} {cfg : Config} {codec : Codec Row} {s s' : System Row}

/-- The worker's next message has an id that is not in memory. -/
def FreshWork (s : System Row) : Prop :=
  forall entry, entry ∈ s.channel.head? -> entry.1 ∉ s.mem.msgs

instance (s : System Row) : Decidable s.FreshWork :=
  inferInstanceAs (Decidable (forall entry, entry ∈ s.channel.head? -> entry.1 ∉ s.mem.msgs))

/-- Stored ids are new to memory; flushes are not restricted. -/
def FreshIds (s : System Row) : Event -> Prop
  | Event.work _ => s.FreshWork
  | _ => True

instance (s : System Row) : (e : Event) -> Decidable (FreshIds s e)
  | Event.work _ => inferInstanceAs (Decidable s.FreshWork)
  | Event.nextMsgId => isTrue trivial
  | Event.store _ _ _ _ _ => isTrue trivial
  | Event.get _ _ _ _ => isTrue trivial
  | Event.flush _ _ => isTrue trivial
  | Event.settle _ => isTrue trivial

/-- The worker's next message keeps the topic of the message it replaces. -/
def SameTopicWork (s : System Row) : Prop :=
  forall entry, entry ∈ s.channel.head? -> forall old, old ∈ s.mem.msgs.lookup entry.1 ->
    old.publish.topic = entry.2.publish.topic

instance (s : System Row) : Decidable s.SameTopicWork :=
  inferInstanceAs (Decidable (forall entry, entry ∈ s.channel.head? -> forall old,
    old ∈ s.mem.msgs.lookup entry.1 -> old.publish.topic = entry.2.publish.topic))

def SameTopic (s : System Row) : Event -> Prop
  | Event.work _ => s.SameTopicWork
  | _ => True

instance (s : System Row) : (e : Event) -> Decidable (SameTopic s e)
  | Event.work _ => inferInstanceAs (Decidable s.SameTopicWork)
  | Event.nextMsgId => isTrue trivial
  | Event.store _ _ _ _ _ => isTrue trivial
  | Event.get _ _ _ _ => isTrue trivial
  | Event.flush _ _ => isTrue trivial
  | Event.settle _ => isTrue trivial

theorem sameTopic_of_freshIds {e : Event} (h : FreshIds s e) : SameTopic s e := by
  cases e with
  | work now =>
      intro entry hentry old hold
      exact absurd (Finmap.mem_of_lookup_eq_some hold) (h entry hentry)
  | nextMsgId => trivial
  | store now msgId sender p expiryInterval => trivial
  | get now clientId topicFilter iter => trivial
  | flush now commits => trivial
  | settle i => trivial

theorem indexed_step {e : Event} (h : s.mem.Indexed) (hsame : SameTopic s e)
    (hstep : step cfg codec s e = some s') : s'.mem.Indexed := by
  cases e with
  | nextMsgId =>
      rw [← Option.some.inj hstep]
      exact h
  | store now msgId sender p expiryInterval =>
      rw [← Option.some.inj hstep]
      exact h
  | work now =>
      rcases of_step_work hstep with ⟨key, msg, rest, hchannel, hfits, rfl⟩
      have hhead : (key, msg) ∈ s.channel.head? := by
        rw [hchannel]
        rfl
      exact (h.put (hsame (key, msg) hhead) hfits).evict cfg now
  | get now clientId topicFilter iter =>
      rw [of_step_get hstep]
      exact (h.evict cfg now).deliver now clientId iter
  | flush now commits =>
      rw [← Option.some.inj hstep, snapshot_mem]
      have hevict := h.evict cfg now
      exact ⟨hevict.exact, hevict.noEmpty, hevict.counted, hevict.fits⟩
  | settle i =>
      rcases of_step_settle hstep with ⟨f, _hf, rfl⟩
      exact h

theorem indexed_run {disk : Table MsgId Row} {now : Int} {es : List Event}
    (hopen : openStore cfg codec disk now = some s)
    (hrun : Run (step cfg codec) SameTopic s es s') : s'.mem.Indexed :=
  hrun.invariant (of_openStore hopen).right.right.left
    (fun _s _e _t hinv hmeets hstep => indexed_step hinv hmeets hstep)

end System

end Store
end Ciqada
