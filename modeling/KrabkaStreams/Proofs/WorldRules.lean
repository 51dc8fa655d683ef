import KrabkaStreams.Proofs.TaskRules

/-!
# The outcomes of the producer calls

One lemma for each call of a producer: what it leaves behind when it returns, and when it fails.
-/

namespace KrabkaStreams

open Effect

variable {E : Type}

namespace World

theorem endTransaction_cases (op : E → Except StreamsClientError Unit × E) (ev : Bool → Event)
    (w : World E) :
    (∃ env, endTransaction op ev w = (.ok (), { w with env := env, producer := .transactional false },
        [ev true])) ∨
      ∃ e env, endTransaction op ev w = (.error e, { w with env := env },
        fencedEvent (.error e : Except StreamsClientError Unit) ++ [ev false]) := by
  rcases hg : w.holdsGuard with _ | _
  · refine .inr ⟨noOpenTransaction, w.env, ?_⟩
    simp [endTransaction, bind, get, getThe, MonadStateOf.get, hg, Eff.tell, throw, throwThe,
      MonadExceptOf.throw, fencedEvent, noOpenTransaction, StreamsClientError.isProducerFenced]
  · rcases hx : op w.env with ⟨e | u, env⟩
    · refine .inr ⟨e, env, ?_⟩
      simp [endTransaction, bind, get, getThe, MonadStateOf.get, hg, call, Eff.attempt, hx, Eff.tell,
        throw, throwThe, MonadExceptOf.throw]
    · refine .inl ⟨env, ?_⟩
      simp [endTransaction, bind, get, getThe, MonadStateOf.get, hg, call, Eff.attempt, hx, Eff.tell,
        modify, modifyGet, MonadStateOf.modifyGet, fencedEvent]

def accept (w : World E) (env : E) : World E :=
  { w with
    env := env
    nextHandle := w.nextHandle + 1
    producer := match w.producer with
      | .broker pending => .broker (pending ++ [w.nextHandle])
      | .transactional txn => .transactional txn }

variable [Broker E]

theorem send_cases (task : TaskRef) (r : ProducerRecord) (w : World E) :
    (∃ env, send task r w = (.ok (), w.accept env, [.sent task r (some w.nextHandle)])) ∨
      ∃ e env, send task r w = (.error e, { w with env := env },
        fencedEvent (.error e : Except StreamsClientError Unit) ++ [.sent task r none]) := by
  rcases hx : Broker.enqueue w.env r with ⟨e | u, env⟩
  · refine .inr ⟨e, env, ?_⟩
    simp [send, call, Eff.attempt, bind, hx, Eff.tell, throw, throwThe, MonadExceptOf.throw]
  · refine .inl ⟨env, ?_⟩
    rcases hw : w.producer with _ | _ <;> simp [send, call, Eff.attempt, bind, hx, Eff.tell, get, getThe, MonadStateOf.get,
      modify, modifyGet, MonadStateOf.modifyGet, fencedEvent, accept, hw]

theorem beginTransaction_cases (w : World E) :
    (∃ env, beginTransaction w = (.ok (), { w with env := env, producer := .transactional true },
        [.txnBegun true])) ∨
      ∃ e env, beginTransaction w = (.error e, { w with env := env },
        fencedEvent (.error e : Except StreamsClientError Unit) ++ [.txnBegun false]) := by
  rcases hx : Broker.beginTransaction w.env with ⟨e | u, env⟩
  · refine .inr ⟨e, env, ?_⟩
    simp [beginTransaction, call, Eff.attempt, bind, hx, Eff.tell, throw, throwThe,
      MonadExceptOf.throw]
  · refine .inl ⟨env, ?_⟩
    simp [beginTransaction, call, Eff.attempt, bind, hx, Eff.tell, modify, modifyGet,
      MonadStateOf.modifyGet, fencedEvent]

theorem ensureBegun_spec {C : List Event → Prop} {I : Assn Event (World E)} (hC : PrefixClosed C)
    (hbegun : ∀ h w env, I h w →
      I (h ++ [.txnBegun true]) { w with env := env, producer := .transactional true, begun := true })
    (hrefused : ∀ h w env (e : StreamsClientError), I h w →
      I (h ++ (fencedEvent (.error e : Except StreamsClientError Unit) ++ [.txnBegun false])) { w with env := env }) :
    Keeps C I ensureBegun := by
  refine Spec.get fun w => Spec.ite (fun _ => Spec.pure fun _ _ hw => hw.2) fun _ => ?_
  refine Spec.bind hC (R := fun _ h w => I h { w with begun := true }) ?_ fun _ => Spec.modify fun _ _ hw => hw
  rintro h w' ⟨-, hw⟩ -
  rcases beginTransaction_cases w' with ⟨env, hx⟩ | ⟨e, env, hx⟩
  · rw [hx]
    exact hbegun h w' env hw
  · rw [hx]
    exact hrefused h w' env e hw

theorem sendOffsets_cases (parts : List (TaskRef × Offsets)) (w : World E) :
    (∃ env, sendOffsetsToTransaction parts w = (.ok (), { w with env := env },
        [.txnOffsetsSent parts true])) ∨
      ∃ e env, sendOffsetsToTransaction parts w = (.error e, { w with env := env },
        fencedEvent (.error e : Except StreamsClientError Unit) ++ [.txnOffsetsSent parts false]) := by
  rcases hx : Broker.sendOffsets w.env (parts.flatMap Prod.snd) with ⟨e | u, env⟩
  · refine .inr ⟨e, env, ?_⟩
    simp [sendOffsetsToTransaction, call, Eff.attempt, bind, hx, Eff.tell, throw, throwThe,
      MonadExceptOf.throw]
  · refine .inl ⟨env, ?_⟩
    simp [sendOffsetsToTransaction, call, Eff.attempt, bind, hx, Eff.tell, fencedEvent]

section Flush

variable {C : List Event → Prop} {I : Assn Event (World E)}
  {F : StreamsClientError → Assn Event (World E)} (hC : PrefixClosed C)
  (hcall : ∀ op : E → Except StreamsClientError Unit × E, Spec C I (call op) (fun _ => I) F)
  (hfailed : ∀ e h w handle, F e h w → F e (h ++ [.deliveryFailed handle]) w)

include hC hcall hfailed

theorem awaitAll_spec : ∀ handles : List Nat, Spec C I (awaitAll handles) (fun _ => I) F
  | [] => Spec.skip
  | handle :: handles => by
    refine Spec.bind hC (R := fun r h w => match r with
      | .ok _ => I h w
      | .error e => F e h w) (Spec.attempt (hcall _)) fun r => ?_
    cases r with
    | ok u => exact awaitAll_spec handles
    | error e =>
      exact Spec.seq hC (Spec.tell fun h w hw _ => hfailed e h w handle hw) fun _ =>
        Spec.throw fun _ _ h => h

theorem flush_spec (hdrop : ∀ h w, I h w → I h { w with producer := .broker [] })
    (hflushed : ∀ h w handles, I h w → I (h ++ [.flushed handles]) w) :
    Spec C I flush (fun _ => I) F := by
  refine Spec.get fun w₀ => Spec.pre (P := I) ?_ fun _ _ h => h.2
  split
  · exact Spec.skip
  · refine Spec.bind hC (hcall _) fun _ => Spec.get fun w₁ => Spec.pre (P := I) ?_ fun _ _ h => h.2
    split
    · exact Spec.skip
    · refine Spec.seq hC (Spec.modify fun h w hw => hdrop h w hw) fun _ => ?_
      exact Spec.bind hC (awaitAll_spec hC hcall hfailed _) fun _ =>
        Spec.tell fun h w hw _ => hflushed h w _ hw

end Flush

end World

end KrabkaStreams
