import PolymarketBt.Model.AssetSubscriptions

/-! # The feed streams the desired assets

Whatever the interleaving of discovery, of the connection loop and of the feed, and however many
connections are lost on the way: a subscribed connection whose updates and messages are through streams
exactly the desired assets, and nothing more than what is already under way is needed to get there.
The desired assets are those of the markets that are open, or that have closed within the grace and
were found open before.
-/

namespace PolymarketBt

open Transition

variable {Asset : Type*} [DecidableEq Asset] {feed : AssetFeed Asset} {graceNs : ℤ}

/-- The collector sends what it has begun to send, or the feed receives it. -/
def SubscriptionStep.Settles : SubscriptionStep Asset → Prop
  | send | subscribe | deliver => True
  | _ => False

namespace AssetConnection

variable {connection : AssetConnection Asset} {message : AssetMessage Asset}
  {later : List (AssetMessage Asset)}

theorem settle_push :
    (connection.push message).settle feed later = connection.settle feed (message :: later) := by
  simp [settle, push]

theorem settle_append_singleton : connection.settle feed (later ++ [message]) =
    feed.receive (connection.settle feed later) message := by
  simp [settle]

end AssetConnection

namespace AssetSubscriptions

variable {state next final : AssetSubscriptions Asset} {connection : AssetConnection Asset}

/-- What holds in every state of every run. -/
structure Consistent (feed : AssetFeed Asset) (state : AssetSubscriptions Asset) : Prop where
  /-- An update sends on a connection made so far, and on the current one once it is subscribed. -/
  current : ∀ update, state.updating = some update → update.pending ≠ [] ∧
    update.connection ≤ state.connections ∧
    (state.subscribed → update.connection = state.connections)
  unsubscribed : state.connection = none → state.subscribed = false
  settled : ∀ connection, state.connection = some connection → connection.alive →
    state.subscribed → connection.settle feed state.outstanding = state.desired
  /-- Before its subscription a connection streams desired assets only. -/
  partial_ : ∀ connection, state.connection = some connection → connection.alive →
    connection.settle feed state.outstanding ⊆ state.desired

/-- The messages of an update turn the desired assets of before into those of after, and assets among
the former into assets among the latter. -/
theorem foldl_changes (assets streamed : Finset Asset) (covered : streamed ⊆ state.desired) :
    (state.changes assets).foldl feed.receive streamed ⊆ assets ∧
      (streamed = state.desired → (state.changes assets).foldl feed.receive streamed = assets) := by
  have sent : (state.changes assets).foldl feed.receive streamed =
      (streamed ∪ (assets \ state.desired)) \ (state.desired \ assets) := by
    unfold changes
    split_ifs with none noneRemoved noneRemoved <;>
      simp [feed.subscribe, feed.unsubscribe, none, noneRemoved]
  rw [sent]
  constructor
  · intro asset member
    simp only [Finset.mem_sdiff, Finset.mem_union, not_and, not_not] at member
    rcases member.1 with old | added
    · exact member.2 (covered old)
    · exact added.1
  · rintro rfl
    ext asset
    simp only [Finset.mem_sdiff, Finset.mem_union, not_and, not_not]
    tauto

omit [DecidableEq Asset] in
theorem outstanding_of_none (free : state.updating = none) : state.outstanding = [] := by
  rw [outstanding, free]

omit [DecidableEq Asset] in
theorem outstanding_hold {pending : List (AssetMessage Asset)} :
    outstanding { state with updating := hold state.connections pending } = pending := by
  cases pending with
  | nil => rfl
  | cons message rest => exact if_pos rfl

namespace Consistent

theorem init : Consistent feed (AssetSubscriptions.init : AssetSubscriptions Asset) where
  current _ updating := nomatch updating
  unsubscribed _ := rfl
  settled _ up := nomatch up
  partial_ _ up := nomatch up

/-- Discovery replaces the desired assets. -/
theorem updateAssets (consistent : Consistent feed state) (free : state.updating = none)
    (assets : Finset Asset) : Consistent feed (state.updateAssets assets) := by
  have quiet := outstanding_of_none free
  cases up : state.connection with
  | none =>
    have updated : state.updateAssets assets =
        { state with desired := assets, planned := none, updating := none } := by
      rw [AssetSubscriptions.updateAssets, up]
      rfl
    rw [updated]
    exact {
      current := fun _ updating => nomatch updating
      unsubscribed := consistent.unsubscribed
      settled := fun connection same => nomatch up.symm.trans same
      partial_ := fun connection same => nomatch up.symm.trans same }
  | some connection =>
    have updated : state.updateAssets assets =
        { state with
          desired := assets
          planned := none
          updating := hold state.connections (state.changes assets) } := by
      rw [AssetSubscriptions.updateAssets, up]
      rfl
    have pending : (state.updateAssets assets).outstanding = state.changes assets := by
      rw [updated]
      exact @outstanding_hold Asset { state with desired := assets, planned := none } _
    have sent : ∀ other : AssetConnection Asset, other.settle feed (state.changes assets) =
        (state.changes assets).foldl feed.receive (other.settle feed state.outstanding) := by
      intro other
      simp [AssetConnection.settle, quiet]
    refine ⟨?_, ?_, ?_, ?_⟩
    · intro update updating
      rw [updated] at updating ⊢
      cases messages : state.changes assets with
      | nil =>
        rw [messages] at updating
        cases updating
      | cons message rest =>
        rw [messages] at updating
        cases updating
        exact ⟨List.cons_ne_nil _ _, le_rfl, fun _ => rfl⟩
    · rw [updated]
      exact consistent.unsubscribed
    · intro other same alive subscribed
      rw [pending, sent]
      rw [updated] at same subscribed ⊢
      exact (foldl_changes assets _ (consistent.partial_ other same alive)).2
        (consistent.settled other same alive subscribed)
    · intro other same alive
      rw [pending, sent]
      rw [updated] at same ⊢
      exact (foldl_changes assets _ (consistent.partial_ other same alive)).1

/-- An update sends its next message on the connection it found. -/
theorem send {message : AssetMessage Asset} {rest : List (AssetMessage Asset)}
    (consistent : Consistent feed state)
    (updating : state.updating = some ⟨state.connections, message :: rest⟩)
    (up : state.connection = some connection) :
    Consistent feed { state with
      connection := some (connection.push message)
      updating := hold state.connections rest } := by
  have before : state.outstanding = message :: rest := by
    rw [outstanding, updating]
    exact if_pos rfl
  have after := @outstanding_hold Asset
    { state with connection := some (connection.push message) } rest
  refine ⟨?_, fun none => (nomatch none), ?_, ?_⟩
  · intro update held
    cases rest with
    | nil => cases held
    | cons _ _ =>
      cases held
      exact ⟨List.cons_ne_nil _ _, le_rfl, fun _ => rfl⟩
  · rintro other ⟨⟩ alive subscribed
    rw [after, AssetConnection.settle_push, ← before]
    exact consistent.settled connection up alive subscribed
  · rintro other ⟨⟩ alive
    rw [after, AssetConnection.settle_push, ← before]
    exact consistent.partial_ connection up alive

/-- An update that finds its connection closed sends nothing more. -/
theorem abandon {update : AssetUpdate Asset} (consistent : Consistent feed state)
    (updating : state.updating = some update)
    (gone : ∀ connection, state.connection = some connection → connection.alive →
      update.connection ≠ state.connections) : Consistent feed { state with updating := none } := by
  have quiet : ∀ connection, state.connection = some connection → connection.alive →
      outstanding { state with updating := none } = state.outstanding := by
    intro connection up alive
    rw [outstanding, outstanding, updating]
    exact (if_neg (gone connection up alive)).symm
  refine ⟨fun _ held => (nomatch held), consistent.unsubscribed, ?_, ?_⟩
  · intro connection up alive subscribed
    rw [quiet connection up alive]
    exact consistent.settled connection up alive subscribed
  · intro connection up alive
    rw [quiet connection up alive]
    exact consistent.partial_ connection up alive

theorem subscribe (consistent : Consistent feed state) (free : state.updating = none)
    (up : state.connection = some connection) :
    Consistent feed { state with
      connection := some (connection.push (.market state.desired))
      subscribed := true } := by
  have quiet := outstanding_of_none free
  have after : outstanding { state with
      connection := some (connection.push (.market state.desired))
      subscribed := true } = [] := outstanding_of_none free
  have covers : connection.alive →
      (connection.push (.market state.desired)).settle feed [] = state.desired := by
    intro alive
    rw [AssetConnection.settle_push, ← List.nil_append [_],
      AssetConnection.settle_append_singleton]
    exact feed.market _ _ (quiet ▸ consistent.partial_ connection up alive)
  refine ⟨fun update updating => (nomatch free.symm.trans updating), fun none => (nomatch none),
    ?_, ?_⟩
  · rintro other ⟨⟩ alive -
    rw [after]
    exact covers alive
  · rintro other ⟨⟩ alive
    rw [after]
    exact (covers alive).subset

end Consistent

/-- Every step keeps what the messages under way promise. -/
theorem consistent_perform {action : SubscriptionStep Asset} (consistent : Consistent feed state)
    (stepped : state.perform feed graceNs action = some next) : Consistent feed next := by
  cases action with
  | plan now markets =>
    simp only [perform] at stepped
    split_ifs at stepped
    cases stepped
    exact ⟨consistent.current, consistent.unsubscribed, consistent.settled, consistent.partial_⟩
  | update =>
    simp only [perform] at stepped
    split at stepped
    · next assets _ free =>
      cases stepped
      exact consistent.updateAssets free assets
    · cases stepped
  | send =>
    simp only [perform] at stepped
    split at stepped
    · next number message rest connection updating up =>
      split_ifs at stepped with usable
      · cases stepped
        obtain ⟨rfl, alive⟩ := usable
        exact consistent.send updating up
      · cases stepped
        refine consistent.abandon updating fun other same alive here => usable ⟨here, ?_⟩
        obtain rfl := Option.some.inj (up.symm.trans same)
        exact alive
    · next update updating other =>
      cases stepped
      refine consistent.abandon updating fun connection up alive here => ?_
      obtain ⟨some_, -⟩ := consistent.current update updating
      obtain ⟨message, rest, pending⟩ := List.exists_cons_of_ne_nil some_
      exact other update.connection message rest connection up (by rw [← pending])
    · cases stepped
  | connect =>
    simp only [perform] at stepped
    split_ifs at stepped with up
    cases stepped
    have down : state.connection = none := Option.not_isSome_iff_eq_none.mp up
    have quiet : outstanding { state with
        connections := state.connections + 1
        connection := some (AssetConnection.opened : AssetConnection Asset)
        subscribed := false } = [] := by
      unfold outstanding
      cases updating : state.updating with
      | none => rfl
      | some update =>
        have le := (consistent.current update updating).2.1
        exact if_neg (by simp only; omega)
    refine ⟨?_, fun none => (nomatch none), ?_, ?_⟩
    · intro update updating
      obtain ⟨some_, le, -⟩ := consistent.current update updating
      exact ⟨some_, le.trans (Nat.le_succ _), fun subscribed => (nomatch subscribed)⟩
    · rintro other ⟨⟩ - ⟨⟩
    · rintro other ⟨⟩ -
      rw [quiet]
      exact Finset.empty_subset _
  | subscribe =>
    simp only [perform] at stepped
    split at stepped
    · next connection free up =>
      split_ifs at stepped
      cases stepped
      exact consistent.subscribe free up
    · cases stepped
  | deliver =>
    simp only [perform] at stepped
    split at stepped
    · next message rest streamed up =>
      cases stepped
      refine ⟨consistent.current, fun none => (nomatch none), ?_, ?_⟩
      · rintro other ⟨⟩ alive subscribed
        exact (consistent.settled _ up alive subscribed :)
      · rintro other ⟨⟩ alive
        exact (consistent.partial_ _ up alive :)
    · cases stepped
  | lose =>
    obtain ⟨connection, up, rfl⟩ := Option.map_eq_some_iff.mp stepped
    refine ⟨consistent.current, fun none => (nomatch none), ?_, ?_⟩
    · rintro other ⟨⟩ ⟨⟩
    · rintro other ⟨⟩ ⟨⟩
  | giveUp =>
    simp only [perform] at stepped
    split at stepped
    · cases stepped
      refine ⟨fun update updating => ?_, fun _ => rfl, fun _ same => (nomatch same),
        fun _ same => (nomatch same)⟩
      obtain ⟨some_, le, -⟩ := consistent.current update updating
      exact ⟨some_, le, fun subscribed => (nomatch subscribed)⟩
    · cases stepped

theorem consistent_run {steps : List (SubscriptionStep Asset)}
    (run : Run (perform feed graceNs) (fun _ _ => True) AssetSubscriptions.init steps final) :
    Consistent feed final :=
  run.invariant .init fun _ _ _ _ stepped consistent => consistent_perform consistent stepped

/-! ## Progress -/

/-- The collector and the feed go on by themselves, and nothing else happens. -/
def Leads (feed : AssetFeed Asset) (graceNs : ℤ) (state later : AssetSubscriptions Asset) : Prop :=
  ∃ steps, (∀ step ∈ steps, step.Settles) ∧
    Run (perform feed graceNs) (fun _ _ => True) state steps later

theorem Leads.step {later : AssetSubscriptions Asset} {action : SubscriptionStep Asset}
    (stepped : state.perform feed graceNs action = some next) (settles : action.Settles)
    (leads : Leads feed graceNs next later) : Leads feed graceNs state later := by
  obtain ⟨steps, all, run⟩ := leads
  exact ⟨action :: steps, List.forall_mem_cons.mpr ⟨settles, all⟩, .cons trivial stepped run⟩

/-- The feed receives all that is in flight. -/
theorem leads_delivered {inflight : List (AssetMessage Asset)} {streamed : Finset Asset}
    (up : state.connection = some ⟨true, inflight, streamed⟩) :
    Leads feed graceNs state
      { state with connection := some ⟨true, [], inflight.foldl feed.receive streamed⟩ } := by
  induction inflight generalizing state streamed with
  | nil =>
    rw [List.foldl_nil, ← up]
    exact ⟨[], by simp, .nil _⟩
  | cons message rest ih =>
    have stepped : state.perform feed graceNs .deliver =
        some { state with connection := some ⟨true, rest, feed.receive streamed message⟩ } := by
      simp only [perform, up]
    exact .step stepped trivial (ih rfl)

/-- An update ends, whether or not it sends anything. -/
theorem leads_updated (consistent : Consistent feed state) (up : state.connection = some connection)
    (alive : connection.alive) : ∃ later after, Leads feed graceNs state later ∧
      later.updating = none ∧ later.connection = some after ∧ after.alive ∧
      later.desired = state.desired ∧ later.subscribed = state.subscribed := by
  cases updating : state.updating with
  | none => exact ⟨state, connection, ⟨[], by simp, .nil _⟩, updating, up, alive, rfl, rfl⟩
  | some update =>
    obtain ⟨number, pending⟩ := update
    by_cases here : number = state.connections
    · subst here
      induction pending generalizing state connection with
      | nil => exact absurd rfl (consistent.current _ updating).1
      | cons message rest ih =>
        have stepped : state.perform feed graceNs .send = some { state with
            connection := some (connection.push message)
            updating := hold state.connections rest } := by
          simp only [perform, updating, up]
          exact if_pos ⟨trivial, alive⟩
        cases rest with
        | nil =>
          exact ⟨_, _, .step stepped trivial ⟨[], by simp, .nil _⟩, rfl, rfl, alive, rfl, rfl⟩
        | cons second rest =>
          obtain ⟨later, after, leads, ended⟩ :=
            ih (consistent_perform consistent stepped) rfl alive rfl
          exact ⟨later, after, .step stepped trivial leads, ended⟩
    · have stepped : state.perform feed graceNs .send = some { state with updating := none } := by
        simp only [perform, updating, up]
        cases pending with
        | nil => rfl
        | cons message rest => exact if_neg fun usable => here usable.1
      exact ⟨_, connection, .step stepped trivial ⟨[], by simp, .nil _⟩, rfl, up, alive, rfl, rfl⟩

theorem Leads.trans {middle later : AssetSubscriptions Asset} (first : Leads feed graceNs state middle)
    (second : Leads feed graceNs middle later) : Leads feed graceNs state later := by
  obtain ⟨earlier, all, run⟩ := first
  obtain ⟨rest, others, after⟩ := second
  refine ⟨earlier ++ rest, fun step member => ?_, Run.append_iff.mpr ⟨middle, run, after⟩⟩
  rcases List.mem_append.mp member with member | member
  · exact all step member
  · exact others step member

theorem Leads.consistent {later : AssetSubscriptions Asset} (consistent : Consistent feed state)
    (leads : Leads feed graceNs state later) : Consistent feed later := by
  obtain ⟨steps, -, run⟩ := leads
  exact run.invariant consistent fun _ _ _ _ stepped consistent =>
    consistent_perform consistent stepped

/-- Once everything is through, a live connection streams the desired assets. -/
theorem leads_settled (consistent : Consistent feed state) (up : state.connection = some connection)
    (alive : connection.alive) : ∃ later, Leads feed graceNs state later ∧
      later.connection = some ⟨true, [], state.desired⟩ ∧ later.desired = state.desired ∧
      later.updating = none ∧ later.subscribed := by
  obtain ⟨free, after, updated, ended, upAfter, aliveAfter, desired, -⟩ :=
    @leads_updated Asset _ feed graceNs state connection consistent up alive
  -- The loop subscribes the connection, unless it has done so.
  obtain ⟨whole, last, subscribed, upLast, aliveLast, wanted, quiet, asked⟩ :
      ∃ whole last, Leads feed graceNs free whole ∧ whole.connection = some last ∧ last.alive ∧
        whole.desired = state.desired ∧ whole.updating = none ∧ whole.subscribed := by
    cases asked : free.subscribed with
    | true => exact ⟨free, after, ⟨[], by simp, .nil _⟩, upAfter, aliveAfter, desired, ended, asked⟩
    | false =>
      have stepped : free.perform feed graceNs .subscribe = some { free with
          connection := some (after.push (.market free.desired))
          subscribed := true } := by
        simp only [perform, ended, upAfter]
        exact if_pos ⟨aliveAfter, by rw [asked]; rfl⟩
      exact ⟨_, _, .step stepped trivial ⟨[], by simp, .nil _⟩, rfl, aliveAfter, desired, ended, rfl⟩
  obtain ⟨_, inflight, streamed⟩ := last
  obtain rfl : _ = true := aliveLast
  have through : inflight.foldl feed.receive streamed = state.desired := by
    have settled := ((updated.trans subscribed).consistent consistent).settled _ upLast rfl asked
    rw [outstanding_of_none quiet, AssetConnection.settle, List.append_nil, wanted] at settled
    exact settled
  refine ⟨_, (updated.trans subscribed).trans (leads_delivered upLast), ?_, wanted, quiet, asked⟩
  rw [through]

/-- Whatever the steps before: on a live connection that is subscribed, with no update under way, the
messages in flight leave exactly the desired assets streamed; and from every state with a live
connection, the sends under way and their deliveries alone lead there. -/
theorem subscriptions_settle (feed : AssetFeed Asset) (graceNs : ℤ)
    (steps : List (SubscriptionStep Asset)) (final : AssetSubscriptions Asset)
    (connection : AssetConnection Asset)
    (run : Run (perform feed graceNs) (fun _ _ => True) init steps final)
    (up : final.connection = some connection) (alive : connection.alive) :
    (final.subscribed → final.updating = none →
      connection.inflight.foldl feed.receive connection.streamed = final.desired) ∧
    ∃ later, Leads feed graceNs final later ∧
      later.connection = some ⟨true, [], final.desired⟩ ∧ later.desired = final.desired ∧
      later.updating = none ∧ later.subscribed := by
  have consistent := consistent_run run
  refine ⟨fun subscribed free => ?_, leads_settled consistent up alive⟩
  have settled := consistent.settled connection up alive subscribed
  rwa [outstanding_of_none free, AssetConnection.settle, List.append_nil] at settled

/-! ## The desired assets -/

abbrev Poll (Asset : Type*) := ℤ × List (AssetMarket Asset)

/-- The activations that the steps plan. -/
def polls (steps : List (SubscriptionStep Asset)) : List (Poll Asset) :=
  steps.filterMap fun
    | .plan now markets => some (now, markets)
    | _ => none

def desiredFrom (graceNs : ℤ) : Finset Asset → List (Poll Asset) → Finset Asset :=
  List.foldl fun desired poll => activate graceNs poll.1 desired poll.2

/-- The market was open at some activation, and listed and at most just closed at every later one. -/
def Kept (graceNs : ℤ) (market : AssetMarket Asset) (polls : List (Poll Asset)) : Prop :=
  ∃ before opened after, polls = before ++ opened :: after ∧
    market ∈ opened.2 ∧ opened.1 ≤ market.marketEndUtcNs ∧
    ∀ poll ∈ after, market ∈ poll.2 ∧
      (poll.1 ≤ market.marketEndUtcNs ∨ poll.1 - graceNs ≤ market.marketEndUtcNs)

theorem mem_activate {now : ℤ} {previous : Finset Asset} {markets : List (AssetMarket Asset)}
    {asset : Asset} : asset ∈ activate graceNs now previous markets ↔
      ∃ market ∈ markets, market.Wanted graceNs now previous ∧ asset ∈ market.tokens := by
  have union : ∀ (wanted : List (AssetMarket Asset)) (start : Finset Asset),
      asset ∈ wanted.foldl (fun desired market => desired ∪ market.tokens) start ↔
        asset ∈ start ∨ ∃ market ∈ wanted, asset ∈ market.tokens := by
    intro wanted
    induction wanted with
    | nil => simp
    | cons market rest ih =>
      intro start
      rw [List.foldl_cons, ih, Finset.mem_union, List.exists_mem_cons_iff, or_assoc]
  rw [activate, union]
  simp only [Finset.notMem_empty, false_or, List.mem_filter, decide_eq_true_eq, and_assoc]

theorem desired_perform {action : SubscriptionStep Asset}
    (stepped : state.perform feed graceNs action = some next) :
    next.planned.getD next.desired =
      desiredFrom graceNs (state.planned.getD state.desired) (polls [action]) := by
  cases action with
  | plan now markets =>
    simp only [perform] at stepped
    split_ifs at stepped with busy
    cases stepped
    have idle : state.planned = none := Option.not_isSome_iff_eq_none.mp (not_or.mp busy).1
    rw [idle]
    rfl
  | update =>
    simp only [perform] at stepped
    split at stepped
    · next assets planned _ =>
      cases stepped
      rw [planned]
      rfl
    · cases stepped
  | send =>
    simp only [perform] at stepped
    split at stepped
    · split_ifs at stepped
      all_goals
        cases stepped
        rfl
    · cases stepped
      rfl
    · cases stepped
  | connect =>
    simp only [perform] at stepped
    split_ifs at stepped
    cases stepped
    rfl
  | subscribe =>
    simp only [perform] at stepped
    split at stepped
    · split_ifs at stepped
      cases stepped
      rfl
    · cases stepped
  | deliver =>
    simp only [perform] at stepped
    split at stepped
    · cases stepped
      rfl
    · cases stepped
  | lose =>
    obtain ⟨connection, -, rfl⟩ := Option.map_eq_some_iff.mp stepped
    rfl
  | giveUp =>
    simp only [perform] at stepped
    split at stepped
    · cases stepped
      rfl
    · cases stepped

theorem desired_run {steps : List (SubscriptionStep Asset)}
    (run : Run (perform feed graceNs) (fun _ _ => True) state steps final) :
    final.planned.getD final.desired =
      desiredFrom graceNs (state.planned.getD state.desired) (polls steps) := by
  induction run with
  | nil => rfl
  | @cons _ _ _ action rest _ stepped _ ih =>
    have split : polls (action :: rest) = polls [action] ++ polls rest :=
      List.filterMap_append (l := [action])
    rw [ih, desired_perform stepped, split, desiredFrom, List.foldl_append]

omit [DecidableEq Asset] in
theorem kept_snoc {market : AssetMarket Asset} {earlier : List (Poll Asset)} {last : Poll Asset} :
    Kept graceNs market (earlier ++ [last]) ↔ market ∈ last.2 ∧
      (last.1 ≤ market.marketEndUtcNs ∨
        Kept graceNs market earlier ∧ last.1 - graceNs ≤ market.marketEndUtcNs) := by
  constructor
  · rintro ⟨before, opened, after, split, listed, open_, kept⟩
    rcases List.eq_nil_or_concat after with rfl | ⟨middle, final, rfl⟩
    · obtain ⟨-, same⟩ := List.append_inj' split rfl
      obtain rfl := List.singleton_injective same
      exact ⟨listed, .inl open_⟩
    · rw [List.concat_eq_append, ← List.cons_append, ← List.append_assoc] at split
      obtain ⟨rfl, same⟩ := List.append_inj' split rfl
      obtain rfl := List.singleton_injective same
      obtain ⟨again, near⟩ := kept last (by simp)
      exact ⟨again, near.imp_right fun near =>
        ⟨⟨before, opened, middle, rfl, listed, open_, fun poll member => kept poll (by simp [member])⟩,
          near⟩⟩
  · rintro ⟨listed, open_ | ⟨⟨before, opened, after, rfl, first, open_, kept⟩, near⟩⟩
    · exact ⟨earlier, last, [], rfl, listed, open_, by simp⟩
    · refine ⟨before, opened, after ++ [last], by simp, first, open_, fun poll member => ?_⟩
      rcases List.mem_append.mp member with member | member
      · exact kept poll member
      · obtain rfl := List.mem_singleton.mp member
        exact ⟨listed, .inr near⟩

omit [DecidableEq Asset] in
theorem Kept.listed {market : AssetMarket Asset} {polls : List (Poll Asset)}
    (kept : Kept graceNs market polls) : market ∈ polls.flatMap Prod.snd := by
  obtain ⟨before, opened, after, rfl, listed, -⟩ := kept
  exact List.mem_flatMap.mpr ⟨opened, by simp, listed⟩

/-- No two markets that are listed share a token. -/
def Distinct (polls : List (Poll Asset)) : Prop :=
  ∀ first ∈ polls.flatMap Prod.snd, ∀ second ∈ polls.flatMap Prod.snd, ∀ asset,
    asset ∈ first.tokens → asset ∈ second.tokens → first = second

theorem mem_desiredFrom {polls : List (Poll Asset)} (distinct : Distinct polls) (asset : Asset) :
    asset ∈ desiredFrom graceNs ∅ polls ↔
      ∃ market, asset ∈ market.tokens ∧ Kept graceNs market polls := by
  induction polls using List.reverseRecOn generalizing asset with
  | nil => simp [desiredFrom, Kept]
  | append_singleton earlier last ih =>
    have part : ∀ market ∈ earlier.flatMap Prod.snd, market ∈ (earlier ++ [last]).flatMap Prod.snd :=
      fun market member => by
        rw [List.flatMap_append]
        exact List.mem_append_left _ member
    have ih := ih fun first member second other => distinct first (part _ member) second (part _ other)
    -- A market of the last activation was desired before exactly if it was kept.
    have wanted : ∀ market ∈ last.2, (market.Wanted graceNs last.1 (desiredFrom graceNs ∅ earlier) ↔
        last.1 ≤ market.marketEndUtcNs ∨
          Kept graceNs market earlier ∧ last.1 - graceNs ≤ market.marketEndUtcNs) := by
      intro market listed
      have here : market ∈ (earlier ++ [last]).flatMap Prod.snd :=
        List.mem_flatMap.mpr ⟨last, by simp, listed⟩
      have before : market.tokens ∩ desiredFrom graceNs ∅ earlier ≠ ∅ ↔
          Kept graceNs market earlier := by
        rw [← Finset.nonempty_iff_ne_empty]
        constructor
        · rintro ⟨token, member⟩
          obtain ⟨own, desired⟩ := Finset.mem_inter.mp member
          obtain ⟨other, shared, kept⟩ := (ih token).mp desired
          exact distinct other (part _ kept.listed) market here token shared own ▸ kept
        · intro kept
          have own : market.upTokenId ∈ market.tokens := Finset.mem_insert_self ..
          exact ⟨_, Finset.mem_inter.mpr ⟨own, (ih _).mpr ⟨market, own, kept⟩⟩⟩
      rw [AssetMarket.Wanted, before]
    rw [desiredFrom, List.foldl_append]
    change asset ∈ activate graceNs last.1 (desiredFrom graceNs ∅ earlier) last.2 ↔ _
    rw [mem_activate]
    constructor
    · rintro ⟨market, listed, want, own⟩
      exact ⟨market, own, kept_snoc.mpr ⟨listed, (wanted market listed).mp want⟩⟩
    · rintro ⟨market, own, kept⟩
      obtain ⟨listed, want⟩ := kept_snoc.mp kept
      exact ⟨market, listed, (wanted market listed).mpr want, own⟩

/-- Between two activations, whatever the connections went through, the desired assets are the tokens
of the markets that were open at some activation and since then were listed and at most just
closed. -/
theorem desired_iff_kept (feed : AssetFeed Asset) (graceNs : ℤ)
    (steps : List (SubscriptionStep Asset)) (final : AssetSubscriptions Asset)
    (distinct : Distinct (polls steps))
    (run : Run (perform feed graceNs) (fun _ _ => True) init steps final)
    (between : final.planned = none) (asset : Asset) :
    asset ∈ final.desired ↔ ∃ market, asset ∈ market.tokens ∧ Kept graceNs market (polls steps) := by
  have desired := desired_run run
  rw [between] at desired
  rw [show final.desired = desiredFrom graceNs ∅ (polls steps) from desired]
  exact mem_desiredFrom distinct asset

/-! ## One market follows another -/

/-- A feed that streams what it is asked for. -/
def exampleFeed : AssetFeed ℕ where
  receive
    | streamed, .market assets => streamed ∪ assets
    | streamed, .subscribe assets => streamed ∪ assets
    | streamed, .unsubscribe assets => streamed \ assets
  market _ _ := Finset.union_eq_right.mpr
  subscribe _ _ := rfl
  unsubscribe _ _ := rfl

/-- The second activation finds the first market closed within the grace, the third one beyond it. -/
def exampleSteps : List (SubscriptionStep ℕ) :=
  [.plan 0 [⟨1, 2, 10⟩], .update, .connect, .subscribe, .deliver,
    .plan 12 [⟨1, 2, 10⟩, ⟨3, 4, 20⟩], .update, .send, .lose, .giveUp, .connect, .subscribe,
    .plan 16 [⟨1, 2, 10⟩, ⟨3, 4, 20⟩], .update, .send]

def exampleFinal : AssetSubscriptions ℕ where
  desired := {3, 4}
  planned := none
  updating := none
  connections := 2
  connection := some ⟨true, [.market {1, 2, 3, 4}, .unsubscribe {1, 2}], ∅⟩
  subscribed := true

theorem example_run :
    Run (perform exampleFeed 5) (fun _ _ => True) init exampleSteps exampleFinal :=
  Run.of_foldlM rfl

theorem subscriptions_settle_example : ∃ later, Leads exampleFeed 5 exampleFinal later ∧
    later.connection = some ⟨true, [], {3, 4}⟩ := by
  obtain ⟨later, leads, streamed, -⟩ := (subscriptions_settle exampleFeed 5 exampleSteps exampleFinal
    ⟨true, [.market {1, 2, 3, 4}, .unsubscribe {1, 2}], ∅⟩ example_run rfl rfl).2
  exact ⟨later, leads, streamed⟩

theorem desired_iff_kept_example :
    (3 ∈ exampleFinal.desired ↔ ∃ market : AssetMarket ℕ, 3 ∈ market.tokens ∧
      Kept 5 market (polls exampleSteps)) ∧
    (1 ∈ exampleFinal.desired ↔ ∃ market : AssetMarket ℕ, 1 ∈ market.tokens ∧
      Kept 5 market (polls exampleSteps)) := by
  have distinct : Distinct (polls exampleSteps) := by
    intro first here second there asset own shared
    simp only [polls, exampleSteps, List.filterMap_cons, List.filterMap_nil, List.flatMap_cons,
      List.flatMap_nil, List.append_nil, List.cons_append, List.nil_append, List.mem_cons,
      List.not_mem_nil, or_false] at here there
    rcases here with rfl | rfl | rfl | rfl | rfl <;> rcases there with rfl | rfl | rfl | rfl | rfl <;>
      first
        | rfl
        | simp only [AssetMarket.tokens, Finset.mem_insert, Finset.mem_singleton] at own shared
          omega
  exact ⟨desired_iff_kept exampleFeed 5 exampleSteps exampleFinal distinct example_run rfl 3,
    desired_iff_kept exampleFeed 5 exampleSteps exampleFinal distinct example_run rfl 1⟩

end AssetSubscriptions

end PolymarketBt
