import Stencil.Proofs.Concurrent.Progress
import Stencil.Proofs.Engine.Attribution

/-! # Agreement of compilations at the same time

A compilation ends in the same way whoever else is at work.  What it finds in the cache is what it
would have made itself, and it is only refused where the includes lead into a cycle: those who wait
for each other hold files that include each other, from the slot that is asked for back to it.
-/
namespace Stencil
open Relation (ReflTransGen TransGen)

/-! ## Compilations on track -/

namespace Terms

/-- Claims that were made one inside the other before now, for the files of a chain, and what the
innermost job has to end with for all of them to go on as they should. -/
inductive Stacked (T : Terms) (root : String) (now : Nat) :
    List Claim → (chain : List String) → (post : Outcome → Nat → Prop) → Prop
  | nil : Stacked T root now [] [] (T.Answer [] root 0)
  | cons {claims : List Claim} {chain : List String} {post : Outcome → Nat → Prop}
    {path : String} {next : Outcome → Job Outcome} {lo : Nat}
    (h : Stacked T root now claims chain post) (hlo : lo ≤ now) (hmay : T.MayAsk chain path)
    (hnext : ∀ outcome later, lo ≤ later → T.Answer chain path lo outcome later →
      T.Ensures (next outcome) chain later post) :
    Stacked T root now (⟨path, next⟩ :: claims) (chain ++ [path]) (T.Answer chain path lo)

/-- A compilation that will end with a correct answer for its root. -/
inductive OnTrack (T : Terms) (root : String) (now : Nat) : Thread → Prop
  | work {job : Job Outcome} {claims : List Claim} {chain : List String}
    {post : Outcome → Nat → Prop} (hstack : T.Stacked root now claims chain post)
    (h : T.Ensures job chain now post) : OnTrack T root now ⟨.work job, claims⟩
  | judge {call : Call} {document : Document} {left : List Stamp} {claims : List Claim}
    {chain : List String} {post : Outcome → Nat → Prop}
    (hstack : T.Stacked root now claims chain post) (h : T.Ensures call.job chain now post)
    (hkept : Kept T.dialect T.files now call.path document)
    (hleft : ∀ s ∈ left, s.isCurrent T.files = true) :
    OnTrack T root now ⟨.judge call document left, claims⟩
  | sleep {call : Call} {woken : Bool} {claims : List Claim} {chain : List String}
    {post : Outcome → Nat → Prop} (hstack : T.Stacked root now claims chain post)
    (h : T.Ensures call.job chain now post) : OnTrack T root now ⟨.sleep call woken, claims⟩
  | release {claim : Claim} {outcome : Outcome} {claims : List Claim} {chain : List String}
    {post : Outcome → Nat → Prop} (hstack : T.Stacked root now (claim :: claims) chain post)
    (h : post outcome now) : OnTrack T root now ⟨.release claim outcome, claims⟩
  | announce {job : Job Outcome} {claims : List Claim} {chain : List String}
    {post : Outcome → Nat → Prop} (hstack : T.Stacked root now claims chain post)
    (h : T.Ensures job chain now post) : OnTrack T root now ⟨.announce job, claims⟩

variable {T : Terms} {root path : String} {now later : Nat} {t : Thread} {claims : List Claim}
  {chain : List String} {post : Outcome → Nat → Prop}

theorem Stacked.mono (h : T.Stacked root now claims chain post) (hle : now ≤ later) :
    T.Stacked root later claims chain post := by
  induction h with
  | nil => exact .nil
  | cons _ hlo hmay hnext ih => exact .cons ih (Nat.le_trans hlo hle) hmay hnext

theorem Stacked.chain_eq (h : T.Stacked root now claims chain post) :
    (claims.map Claim.path).reverse = chain := by
  induction h with
  | nil => rfl
  | cons _ _ _ _ ih => rw [List.map_cons, List.reverse_cons, ih]

theorem Stacked.isChain (h : T.Stacked root now claims chain post) : chain.IsChain T.asks := by
  induction h with
  | nil => exact .nil
  | cons _ _ hmay _ ih =>
    refine List.isChain_append.mpr ⟨ih, .singleton _, fun p hp q hq => ?_⟩
    obtain rfl := Option.some.inj hq
    exact hmay.asks p hp

theorem Stacked.post_mono (h : T.Stacked root now claims chain post) {outcome : Outcome}
    (hpost : post outcome now) (hle : now ≤ later) : post outcome later := by
  cases h with
  | nil => exact Answer.mono hpost (Nat.le_refl _) hle
  | cons => exact Answer.mono hpost (Nat.le_refl _) hle

theorem Ensures.defer {α : Type} {m : Job α} {post : α → Nat → Prop}
    (h : T.Ensures m chain now post) (hle : now ≤ later) : T.Ensures m chain later post :=
  h.mono hle fun _ _ _ hpost => hpost

theorem OnTrack.mono (h : T.OnTrack root now t) (hle : now ≤ later) : T.OnTrack root later t := by
  cases h with
  | work hstack h => exact .work (hstack.mono hle) (h.defer hle)
  | judge hstack h hkept hleft =>
    exact .judge (hstack.mono hle) (h.defer hle) (hkept.mono hle) hleft
  | sleep hstack h => exact .sleep (hstack.mono hle) (h.defer hle)
  | release hstack h => exact .release (hstack.mono hle) (hstack.post_mono h hle)
  | announce hstack h => exact .announce (hstack.mono hle) (h.defer hle)

theorem OnTrack.rouse (h : T.OnTrack root now t) : T.OnTrack root now t.rouse := by
  cases h with
  | work hstack h => exact .work hstack h
  | judge hstack h hkept hleft => exact .judge hstack h hkept hleft
  | sleep hstack h => exact .sleep hstack h
  | release hstack h => exact .release hstack h
  | announce hstack h => exact .announce hstack h

/-- A compilation on track ends with a correct answer. -/
theorem OnTrack.answer (h : T.OnTrack root now t) {outcome : Outcome}
    (hresult : t.result? = some outcome) : T.Answer [] root 0 outcome now := by
  match t, h, hresult with
  | ⟨.work (.done outcome), []⟩, .work hstack h, hresult =>
    obtain rfl := Option.some.inj hresult
    cases hstack with
    | nil =>
      cases h with
      | done h => exact h now (Nat.le_refl _)

/-- A question that is asked on track, and what may be done with its answer. -/
theorem Ensures.call {call : Call} (h : T.Ensures call.job chain now post) :
    call.chain = chain ++ [call.path] ∧ T.MayAsk chain call.path ∧
      T.Ensures call.compile (chain ++ [call.path]) now (T.Answer chain call.path now) ∧
      ∀ outcome later, now ≤ later → T.Answer chain call.path now outcome later →
        T.Ensures (call.next outcome) chain later post := by
  cases h with
  | obtain hasked hmay hcompile hnext => exact ⟨hasked, hmay, hcompile now (Nat.le_refl _), hnext⟩

/-- The last file of a chain has asked for a path: every file of the chain leads to it. -/
theorem Stacked.reaches (h : T.Stacked root now claims chain post) (hmay : T.MayAsk chain path)
    {p : String} (hp : p ∈ chain) : TransGen T.asks p path := by
  have hchain : (chain ++ [path]).IsChain T.asks := by
    refine List.isChain_append.mpr ⟨h.isChain, .singleton _, fun q hq r hr => ?_⟩
    obtain rfl := Option.some.inj hr
    exact hmay.asks q hq
  have hpairs : (chain ++ [path]).Pairwise (TransGen T.asks) :=
    (hchain.imp fun _ _ hstep => TransGen.single hstep).pairwise
  exact (List.pairwise_append.mp hpairs).2.2 p hp path (List.mem_singleton_self _)

/-- What a compilation goes on with after it has asked is on track, if it was not refused without
reason. -/
theorem Stacked.meet {call : Call} {phase : Phase} (c : Cache) (entrance : Entrance)
    (hstack : T.Stacked root now claims chain post) (h : T.Ensures call.job chain now post)
    (hfound : ∀ document, entrance = .found document →
      Kept T.dialect T.files now call.path document)
    (hrefused : entrance = .refused → T.loops call.path) :
    T.OnTrack root now (Thread.meet ⟨phase, claims⟩ c call entrance) := by
  obtain ⟨-, hmay, hcompile, hnext⟩ := h.call
  cases entrance with
  | found document =>
    have hkept := hfound document rfl
    refine .judge hstack h hkept fun s hs => ?_
    unfold Cache.judged at hs
    split at hs
    · cases hs
    · obtain ⟨x, hx, rfl⟩ := List.mem_map.mp hs
      exact (document.isFresh_iff T.files).mp hkept.isFresh x hx
  | claimed =>
    exact .work (hstack.cons (Nat.le_refl _) hmay hnext) hcompile
  | waits => exact .sleep hstack h
  | refused => exact .work hstack (hnext _ now (Nat.le_refl _) (hrefused rfl))

end Terms

namespace Pool
open Terms

/-- Compilations that are on track, each for its own root, with a cache that keeps correct
documents. -/
structure Agrees (T : Terms) (roots : List String) (s : Pool) : Prop where
  sound : s.Sound
  files : s.world.files = T.files
  kept : ∀ path document, s.world.cache.slot? path = some (.ready document) →
    Kept T.dialect T.files s.world.nextDocument path document
  track : ∀ (i : Nat) (t : Thread), s.threads[i]? = some t →
    ∃ root, roots[i]? = some root ∧ T.OnTrack root s.world.nextDocument t

variable {T : Terms} {roots : List String} {s s' : Pool} {i : Nat} {t t' : Thread} {w : World}
  {root path : String}

theorem Agrees.onTrack (h : s.Agrees T roots) (ht : s.threads[i]? = some t)
    (hroot : roots[i]? = some root) : T.OnTrack root s.world.nextDocument t := by
  obtain ⟨root', hroot', htrack⟩ := h.track i t ht
  obtain rfl := Option.some.inj (hroot.symm.trans hroot')
  exact htrack

/-- Whoever waits holds files that all lead to a file which is held by the one who is waited for. -/
theorem Agrees.reaches_held (h : s.Agrees T roots) {a b : Nat}
    (hwaits : s.world.cache.WaitsFor a b) {u : Thread} (hu : s.threads[a]? = some u)
    (hp : path ∈ u.held) :
    ∃ v q, s.threads[b]? = some v ∧ q ∈ v.held ∧ TransGen T.asks path q := by
  obtain ⟨q, hlookup, hslot⟩ := Cache.waitsFor_iff.mp hwaits
  obtain ⟨v, hv, hq⟩ := h.sound.owned q b hslot
  refine ⟨v, q, hv, hq, ?_⟩
  rw [h.sound.asleep, hu] at hlookup
  obtain ⟨root, -, htrack⟩ := h.track a u hu
  match u, hlookup, htrack, hp with
  | ⟨.sleep call woken, claims⟩, hlookup, .sleep hstack hcall, hp =>
    obtain rfl := Option.some.inj hlookup
    have hmem : path ∈ claims.map Claim.path := hp
    rw [← List.mem_reverse, hstack.chain_eq] at hmem
    exact hstack.reaches hcall.call.2.1 hmem

theorem Agrees.reaches_of_waits (h : s.Agrees T roots) {a b : Nat}
    (hreach : ReflTransGen s.world.cache.WaitsFor a b) {u : Thread} (hu : s.threads[a]? = some u)
    (hp : path ∈ u.held) :
    ∃ v q, s.threads[b]? = some v ∧ q ∈ v.held ∧ ReflTransGen T.asks path q := by
  induction hreach with
  | refl => exact ⟨u, path, hu, hp, .refl⟩
  | tail _ hwaits ih =>
    obtain ⟨v, q, hv, hq, hasks⟩ := ih
    obtain ⟨v', q', hv', hq', hasks'⟩ := h.reaches_held hwaits hv hq
    exact ⟨v', q', hv', hq', hasks.trans hasks'.to_reflTransGen⟩

/-- **A compilation that would wait for itself has asked for a file that includes itself**, directly
or through others. -/
theorem Agrees.loops_of_refused (h : s.Agrees T roots) (hT : T.Closed) {claims : List Claim}
    {chain : List String} {post : Outcome → Nat → Prop} {now : Nat}
    (ht : s.threads[i]? = some t) (hheld : t.held = claims.map Claim.path)
    (hstack : T.Stacked root now claims chain post)
    (hmay : T.MayAsk chain path) {other : Nat}
    (hslot : s.world.cache.slot? path = some (.compiling other))
    (hloop : s.world.cache.closesLoop i other = true) : T.loops path := by
  -- the owner of the slot holds the path, and the way back to the one who asks ends in its chain
  obtain ⟨u, hu, hmem⟩ := h.sound.owned path other hslot
  obtain ⟨v, q, hv, hq, hasks⟩ :=
    h.reaches_of_waits (h.sound.acyclic.closesLoop_iff.mp hloop) hu hmem
  obtain rfl := Option.some.inj (ht.symm.trans hv)
  rw [hheld, ← List.mem_reverse, hstack.chain_eq] at hq
  exact hT.around path (.trans_right hasks (hstack.reaches hmay hq))

/-- A step of one compilation keeps the others on track. -/
theorem Agrees.put (h : s.Agrees T roots) (ht : s.threads[i]? = some t)
    (hroot : roots[i]? = some root) (hsound : (s.put i t' w).Sound)
    (hfiles : w.files = s.world.files) (hnow : s.world.nextDocument ≤ w.nextDocument)
    (hkept : ∀ path document, w.cache.slot? path = some (.ready document) →
      Kept T.dialect T.files w.nextDocument path document)
    (htrack : T.OnTrack root w.nextDocument t') : (s.put i t' w).Agrees T roots where
  sound := hsound
  files := hfiles.trans h.files
  kept := hkept
  track j u hu := by
    rw [getElem?_put ht] at hu
    split at hu
    · rename_i hj
      obtain rfl := Option.some.inj hu
      exact ⟨root, hj ▸ hroot, htrack⟩
    · obtain ⟨root', hroot', htrack'⟩ := h.track j u hu
      exact ⟨root', hroot', htrack'.mono hnow⟩

/-- A compilation that asks stays on track. -/
theorem Agrees.ask (h : s.Agrees T roots) (hT : T.Closed) (call : Call) {claims : List Claim}
    (ht : s.threads[i]? = some ⟨.work call.job, claims⟩) :
    (s.put i (Thread.ask ⟨.work call.job, claims⟩ i call none s.world).1
      (Thread.ask ⟨.work call.job, claims⟩ i call none s.world).2).Agrees T roots := by
  have hsound := h.sound.ask ht rfl rfl (fun _ howes => howes) call none
  obtain ⟨root, hroot, htrack⟩ := h.track i _ ht
  obtain ⟨chain, post, hstack, hcall⟩ : ∃ chain post,
      T.Stacked root s.world.nextDocument claims chain post ∧
        T.Ensures call.job chain s.world.nextDocument post := by
    cases htrack with
    | work hstack hcall => exact ⟨_, _, hstack, hcall⟩
  unfold Thread.ask at hsound ⊢
  rcases s.world.cache.enter_cases i call.path none with ⟨document, hslot, henter⟩ |
    ⟨-, henter⟩ | ⟨other, hslot, hloop, henter⟩ | ⟨other, -, -, henter⟩
  · rw [henter] at hsound ⊢
    refine h.put ht hroot hsound rfl (Nat.le_refl _) h.kept
      (hstack.meet _ (.found document) hcall (fun document' hfound => ?_) fun hrefused => ?_)
    · obtain rfl : document = document' := by simpa using hfound
      exact h.kept _ _ hslot
    · cases hrefused
  · rw [henter] at hsound ⊢
    refine h.put ht hroot hsound rfl (Nat.le_refl _) (fun path document hready => ?_)
      (hstack.meet s.world.cache .claimed hcall (fun _ hfound => ?_) fun hrefused => ?_)
    · rw [Cache.slot?_fill] at hready
      split at hready
      · cases hready
      · exact h.kept path document hready
    · cases hfound
    · cases hrefused
  · rw [henter] at hsound ⊢
    refine h.put ht hroot hsound rfl (Nat.le_refl _) h.kept
      (hstack.meet s.world.cache .refused hcall (fun _ hfound => ?_) fun _ => ?_)
    · cases hfound
    · exact h.loops_of_refused hT ht rfl hstack hcall.call.2.1 hslot hloop
  · rw [henter] at hsound ⊢
    refine h.put ht hroot hsound rfl (Nat.le_refl _) h.kept
      (hstack.meet s.world.cache .waits hcall (fun _ hfound => ?_) fun hrefused => ?_)
    · cases hfound
    · cases hrefused

/-- A compilation that stops waiting stays on track. -/
theorem Agrees.wake (h : s.Agrees T roots) {call : Call} {claims : List Claim}
    (ht : s.threads[i]? = some ⟨.sleep call true, claims⟩) :
    (s.put i ⟨.work call.job, claims⟩
      { s.world with cache := s.world.cache.wake i }).Agrees T roots := by
  obtain ⟨root, hroot, htrack⟩ := h.track i _ ht
  cases htrack with
  | sleep hstack hcall =>
    exact h.put ht hroot (h.sound.wake ht) rfl (Nat.le_refl _) h.kept (.work hstack hcall)

/-- A compilation that stores what it has made keeps a correct document. -/
theorem Agrees.store (h : s.Agrees T roots) {claim : Claim} {claims : List Claim}
    {document : Document}
    (ht : s.threads[i]? = some ⟨.work (.done (.ok document)), claim :: claims⟩) :
    (s.put i ⟨.release claim (.ok document), claims⟩
      { s.world with cache := s.world.cache.store i claim.path document }).Agrees T roots := by
  obtain ⟨root, hroot, htrack⟩ := h.track i _ ht
  cases htrack with
  | work hstack hjob =>
    cases hjob with
    | done hpost =>
      have hnow := hpost _ (Nat.le_refl _)
      refine h.put ht hroot (h.sound.store ht) rfl (Nat.le_refl _) (fun path other hready => ?_)
        (.release hstack hnow)
      have hslot : (s.world.cache.store i claim.path document).slot? path =
        some (.ready other) := hready
      rw [Cache.slot?_store] at hslot
      split at hslot
      · rename_i hand
        obtain ⟨rfl, -, hwhole⟩ := hand
        obtain rfl : document = other := by simpa using hslot
        -- what the innermost job ends with is a correct answer to the question for its path
        cases hstack with
        | cons => exact .of_answer hnow hwhole
      · exact h.kept path other hslot

/-- A compilation that gives up a slot goes on with a correct answer. -/
theorem Agrees.release (h : s.Agrees T roots) {claim : Claim} {claims : List Claim}
    {outcome : Outcome} (ht : s.threads[i]? = some ⟨.release claim outcome, claims⟩) :
    (s.put i ⟨.announce (claim.next outcome), claims⟩
      { s.world with cache := s.world.cache.release i claim.path }).Agrees T roots := by
  obtain ⟨root, hroot, htrack⟩ := h.track i _ ht
  cases htrack with
  | release hstack hpost =>
    refine h.put ht hroot (h.sound.release ht) rfl (Nat.le_refl _) (fun path other hready => ?_) ?_
    · have hslot : (s.world.cache.release i claim.path).slot? path = some (.ready other) := hready
      rw [Cache.slot?_release] at hslot
      split at hslot
      · cases hslot
      · exact h.kept path other hslot
    · cases hstack with
      | cons hstack hlo _ hnext => exact .announce hstack (hnext outcome _ hlo hpost)

/-- A step of a compilation keeps all on track. -/
theorem Agrees.go (h : s.Agrees T roots) (hT : T.Closed) (hgo : s.go? i = some s') :
    s'.Agrees T roots := by
  have hsound := h.sound.go hgo
  obtain ⟨t, t', w, ht, hstep, rfl⟩ := exists_of_go? hgo
  obtain ⟨root, hroot, htrack⟩ := h.track i t ht
  match t, ht, hstep, htrack with
  | ⟨.work (.done (.ok document)), claim :: claims⟩, ht, hstep, _ =>
    obtain ⟨rfl, rfl⟩ := Prod.mk.inj (Option.some.inj hstep)
    exact h.store ht
  | ⟨.work (.done (.error reason)), claim :: claims⟩, ht, hstep, .work hstack hjob =>
    obtain ⟨rfl, rfl⟩ := Prod.mk.inj (Option.some.inj hstep)
    cases hjob with
    | done hpost =>
      have hnow := hpost s.world.nextDocument (Nat.le_refl _)
      exact h.put ht hroot hsound rfl (Nat.le_refl _) h.kept (.release hstack hnow)
  | ⟨.work (.read path next), claims⟩, ht, hstep, .work hstack hjob =>
    obtain ⟨rfl, rfl⟩ := Prod.mk.inj (Option.some.inj hstep)
    cases hjob with
    | read hjob =>
      exact h.put ht hroot hsound rfl (Nat.le_refl _) h.kept (.work hstack (h.files ▸ hjob))
  | ⟨.work (.number next), claims⟩, ht, hstep, .work hstack hjob =>
    obtain ⟨rfl, rfl⟩ := Prod.mk.inj (Option.some.inj hstep)
    cases hjob with
    | number hjob =>
      -- time moves on for everybody
      have hle : s.world.nextDocument ≤ s.world.newDocument.2.nextDocument := Nat.le_succ _
      exact h.put ht hroot hsound rfl hle (fun path document hready =>
        (h.kept path document hready).mono hle) (.work (hstack.mono hle) (hjob _ (Nat.le_refl _)))
  | ⟨.work (.obtain path chain compile next), claims⟩, ht, hstep, _ =>
    obtain ⟨rfl, rfl⟩ := Prod.mk.inj (Option.some.inj hstep)
    exact h.ask hT ⟨path, chain, compile, next⟩ ht
  | ⟨.judge call document [], claims⟩, ht, hstep, .judge hstack hcall hkept _ =>
    obtain ⟨rfl, rfl⟩ := Prod.mk.inj (Option.some.inj hstep)
    have hjob := hcall.call.2.2.2 (.ok document) s.world.nextDocument (Nat.le_refl _)
      ⟨hkept.compiles, hkept.apart (Nat.le_refl _)⟩
    exact h.put ht hroot hsound rfl (Nat.le_refl _) h.kept (.work hstack hjob)
  | ⟨.judge call document (stamp :: left), claims⟩, ht, hstep, .judge hstack hcall hkept hleft =>
    -- the files are what they were, so that no document is found to be stale
    obtain ⟨hhead, htail⟩ := List.forall_mem_cons.mp hleft
    rw [Thread.step?, h.files, if_pos hhead] at hstep
    obtain ⟨rfl, rfl⟩ := Prod.mk.inj (Option.some.inj hstep)
    exact h.put ht hroot hsound rfl (Nat.le_refl _) h.kept (.judge hstack hcall hkept htail)
  | ⟨.sleep call true, claims⟩, ht, hstep, _ =>
    obtain ⟨rfl, rfl⟩ := Prod.mk.inj (Option.some.inj hstep)
    have hwake := h.wake ht
    have hask := hwake.ask hT call (by rw [getElem?_put ht, if_pos rfl])
    rwa [put_put] at hask
  | ⟨.release claim outcome, claims⟩, ht, hstep, _ =>
    obtain ⟨rfl, rfl⟩ := Prod.mk.inj (Option.some.inj hstep)
    exact h.release ht
  | ⟨.announce job, claims⟩, ht, hstep, .announce hstack hjob =>
    obtain ⟨rfl, rfl⟩ := Prod.mk.inj (Option.some.inj hstep)
    refine ⟨hsound, h.files, h.kept, fun j u hu => ?_⟩
    obtain ⟨v, hv, rfl⟩ := Option.map_eq_some_iff.mp ((List.getElem?_map ..).symm.trans hu)
    rw [getElem?_put ht] at hv
    split at hv
    · rename_i hj
      obtain rfl := Option.some.inj hv
      exact ⟨root, hj ▸ hroot, .work hstack hjob⟩
    · obtain ⟨root', hroot', htrack'⟩ := h.track j v hv
      exact ⟨root', hroot', htrack'.rouse⟩

/-- So does waking up for no reason. -/
theorem Agrees.move (h : s.Agrees T roots) (hT : T.Closed) {m : Move}
    (hmove : s.move? m = some s') : s'.Agrees T roots := by
  match m, hmove with
  | .go i, hmove => exact h.go hT hmove
  | .stir i, hmove =>
    obtain rfl := Option.some.inj hmove
    refine ⟨h.sound.stir i, h.files, h.kept, fun j u hu => ?_⟩
    have hget : s.threads[j]?.map (fun t => if i = j then t.rouse else t) = some u := by
      rw [← hu, List.getElem?_modify]
      split <;> simp
    obtain ⟨v, hv, rfl⟩ := Option.map_eq_some_iff.mp hget
    obtain ⟨root, hroot, htrack⟩ := h.track j v hv
    refine ⟨root, hroot, ?_⟩
    split
    · exact htrack.rouse
    · exact htrack

end Pool

/-! ## Answers to the same question -/

/-- Two compilations have ended in the same way: with programs that are the same but for the numbers
of documents, or with errors of the same kind. -/
def SameResult : (a b : Except CompileError Program) → Prop
  | .ok p, .ok q => p.Same q
  | .error reason, .error reason' => reason.kindName = reason'.kindName
  | _, _ => False

/-- Correct answers for the same root are the same. -/
theorem Terms.Answer.same {d : Dialect} {files : Files} {root : String} {now now' : Nat}
    {outcome outcome' : Outcome} (h : (Terms.strict d files).Answer [] root 0 outcome now)
    (h' : (Terms.strict d files).Answer [] root 0 outcome' now') :
    SameResult (outcome.map Document.program) (outcome'.map Document.program) := by
  have hok := h.ok_iff.trans h'.ok_iff.symm
  have hcycle := h.cycle_iff.trans h'.cycle_iff.symm
  match outcome, h, outcome', h' with
  | .ok document, ⟨hcompiles, hapart⟩, .ok document', ⟨hcompiles', hapart'⟩ =>
    exact Document.same_program (hcompiles.bare_eq hcompiles') hcompiles.tidy hapart hapart'
  | .ok document, _, .error _, _ =>
    obtain ⟨_, hdocument⟩ := hok.mp ⟨document, rfl⟩
    cases hdocument
  | .error _, _, .ok document, _ =>
    obtain ⟨_, hdocument⟩ := hok.mpr ⟨document, rfl⟩
    cases hdocument
  | .error (.cycle _), _, .error reason, _ =>
    obtain ⟨reason', hreason, hkind⟩ := hcycle.mp ⟨_, rfl, rfl⟩
    obtain rfl := Except.error.inj hreason
    exact hkind.symm
  | .error reason, _, .error (.cycle _), _ =>
    obtain ⟨reason', hreason, hkind⟩ := hcycle.mpr ⟨_, rfl, rfl⟩
    obtain rfl := Except.error.inj hreason
    exact hkind
  | .error (.template _ _), _, .error (.template _ _), _ => rfl
  | .error (.inclusion _), ⟨hchain, _⟩, _, _ => exact absurd rfl hchain
  | _, _, .error (.inclusion _), ⟨hchain, _⟩ => exact absurd rfl hchain

/-! ## Engines -/

namespace Engine
open Pool

variable {e : Engine} {files : Files}

/-- **Compilations by one engine do not depend on what came before**: whatever the engine has been
asked for, as long as the files stay what they are, a compilation ends as it would with a new
engine. -/
theorem same_compile_history (e : Engine) (files : Files) (mode : CacheMode)
    (requests : List Request) (path : String) :
    SameResult (e.compile path (e.history files mode requests)).1
      (e.compile path (.fresh files mode)).1 := by
  obtain ⟨-, outcome, now, hresult, hanswer⟩ := (e.idle_history files mode requests).compile path
  obtain ⟨-, outcome', now', hresult', hanswer'⟩ :=
    (idle_fresh e.dialect files mode).compile path
  rw [hresult, hresult']
  exact hanswer.same hanswer'

/-- Compilations of files by one engine, none of which has begun. -/
def together (e : Engine) (files : Files) (mode : CacheMode) (paths : List String) : Pool :=
  .start files mode (paths.map fun path =>
    compileFile e.dialect (files.size + 1) (Path.normalize path))

theorem agrees_together (e : Engine) (files : Files) (mode : CacheMode) (paths : List String) :
    (e.together files mode paths).Agrees (.strict e.dialect files)
      (paths.map Path.normalize) where
  sound := sound_start files mode _
  files := rfl
  kept path document hslot := by cases hslot
  track i t ht := by
    obtain ⟨job, hjob, rfl⟩ := Option.map_eq_some_iff.mp ((List.getElem?_map ..).symm.trans ht)
    obtain ⟨path, hpath, rfl⟩ := Option.map_eq_some_iff.mp ((List.getElem?_map ..).symm.trans hjob)
    refine ⟨Path.normalize path, by rw [List.getElem?_map, hpath]; rfl, .work .nil ?_⟩
    exact Terms.ensures_compileFile (Terms.closed_strict e.dialect files)
      (Nat.le_refl (files.size + 1)) (Path.normalize_normalize path) 0

/-- Compilations stay on track while they take steps in any order. -/
theorem agrees_after (e : Engine) (files : Files) (mode : CacheMode) (paths : List String)
    (moves : List Move) :
    ((e.together files mode paths).after (moves.map .move)).Agrees (.strict e.dialect files)
      (paths.map Path.normalize) := by
  refine after_induction (P := (Agrees (.strict e.dialect files) (paths.map Path.normalize) ·))
    (e.agrees_together files mode paths) fun act hact s s' h hstep => ?_
  obtain ⟨m, -, rfl⟩ := List.mem_map.mp hact
  exact h.move (Terms.closed_strict e.dialect files) hstep

/-- **Compilations by one engine do not depend on each other.**  In whatever order they take their
steps, each one that ends does so as it would alone with a new engine: with the same code, mappings,
coordinates of occurrences and failed directives, or with an error of the same kind.  A cycle is
reported if and only if the includes of its file lead into one. -/
theorem same_result_together (e : Engine) (files : Files) (mode : CacheMode)
    (paths : List String) (moves : List Move) (i : Fin paths.length) :
    match ((e.together files mode paths).after (moves.map .move)).result? i with
    | none => True
    | some outcome =>
      SameResult (outcome.map Document.program) (e.compile paths[i] (.fresh files mode)).1 ∧
      ((∃ reason, outcome = .error reason ∧ reason.kindName = "CacheConsistencyError") ↔
        e.dialect.Loops files.read (Path.normalize paths[i])) := by
  have hagrees := e.agrees_after files mode paths moves
  cases hresult : ((e.together files mode paths).after (moves.map .move)).result? i with
  | none => trivial
  | some outcome =>
    obtain ⟨t, ht, houtcome⟩ := Option.bind_eq_some_iff.mp hresult
    have hroot : (paths.map Path.normalize)[i]? = some (Path.normalize paths[i]) := by simp
    have htrack := hagrees.onTrack ht hroot
    have hanswer := htrack.answer houtcome
    obtain ⟨-, outcome', now', hresult', hanswer'⟩ :=
      (idle_fresh e.dialect files mode).compile paths[i]
    rw [hresult']
    exact ⟨hanswer.same hanswer', hanswer.cycle_iff⟩

end Engine

end Stencil
