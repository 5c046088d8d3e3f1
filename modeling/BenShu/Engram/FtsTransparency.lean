import BenShu.Engram.FtsStore
import BenShu.Lib.FallibleRun

/-!
# Segments do not show

Deltas and reads of any terms, in any order, against one plain map for each term. Where the
segments lie, when they are compacted and what is cached makes no difference to what a term's
posting list is.
-/

namespace BenShu.Engram

open DeltaLog

inductive TermEvent where
  | delta (term : String) (addedEntries : List PostingEntry) (removedDocKeys : List String)
  | read (term : String)

namespace TermEvent

def term : TermEvent → String
  | delta term _ _ => term
  | read term => term

def deltaFor (term : String) : TermEvent → Option (Delta String PostingEntry)
  | delta other added removed => if other = term then some ⟨added, removed⟩ else none
  | read _ => none

end TermEvent

def deltasFor (term : String) (events : List TermEvent) : List (Delta String PostingEntry) :=
  events.filterMap (TermEvent.deltaFor term)

namespace FtsEngine

def applyEvent (host : FtsHost) (engine : FtsEngine) : TermEvent → Except String FtsEngine
  | .delta term added removed => engine.applyTermDelta host term added removed
  | .read term => (engine.getPostingListInternal term).map (·.1)

def runEvents (host : FtsHost) (engine : FtsEngine) (events : List TermEvent) :
    Except String FtsEngine :=
  events.foldlM (applyEvent host) engine

def plainMap (engine : FtsEngine) (term : String) : Table String PostingEntry :=
  replay PostingEntry.docKey (storedDeltas engine.inverted term)

def mapAfter (start : FtsEngine) (events : List TermEvent) (term : String) :
    Table String PostingEntry :=
  (deltasFor term events).foldl (Delta.apply PostingEntry.docKey) (start.plainMap term)

/-- Where an engine stands after the events, for one term. -/
structure Follows (start : FtsEngine) (events : List TermEvent) (engine : FtsEngine)
    (term : String) : Prop where
  posting : ∀ docKey,
    storedPosting engine.inverted term docKey = (mapAfter start events term).lookup docKey
  touched : deltasFor term events ≠ [] →
    oldList engine.inverted term = none ∧ (listedKeys engine.inverted term).length < 8
  untouched : deltasFor term events = [] →
    oldList engine.inverted term = oldList start.inverted term

variable {host : FtsHost} {start engine engine' : FtsEngine} {events : List TermEvent}
  {event : TermEvent} {term : String}

theorem mapAfter_snoc (start : FtsEngine) (events : List TermEvent) (event : TermEvent)
    (term : String) : mapAfter start (events ++ [event]) term =
      (event.deltaFor term).toList.foldl (Delta.apply PostingEntry.docKey)
        (mapAfter start events term) := by
  rw [mapAfter, mapAfter, deltasFor, deltasFor, List.filterMap_append, List.foldl_append]
  cases hdelta : event.deltaFor term <;> simp [hdelta]

theorem Follows.skip (h : Follows start events engine term) (hnone : event.deltaFor term = none)
    (hposting : ∀ docKey, storedPosting engine'.inverted term docKey =
      storedPosting engine.inverted term docKey)
    (hold : oldList engine'.inverted term = oldList engine.inverted term)
    (hlisted : listedKeys engine'.inverted term = listedKeys engine.inverted term) :
    Follows start (events ++ [event]) engine' term := by
  have hsame : deltasFor term (events ++ [event]) = deltasFor term events := by
    simp [deltasFor, hnone]
  refine ⟨fun docKey => ?_, fun hsome => ?_, fun hempty => ?_⟩
  · rw [hposting, h.posting, mapAfter, mapAfter, hsame]
  · rw [hold, hlisted]
    exact h.touched (hsame ▸ hsome)
  · rw [hold]
    exact h.untouched (hsame ▸ hempty)

/-- One event succeeds and takes every term where its deltas take the plain map. -/
theorem applyEvent_follows (hsound : Sound host engine) (hplain : PlainKey event.term)
    (hfollows : ∀ term, PlainKey term → Follows start events engine term) :
    ∃ engine', engine.applyEvent host event = .ok engine' ∧ Sound host engine' ∧
      ∀ term, PlainKey term → Follows start (events ++ [event]) engine' term := by
  cases event with
  | read target =>
      have hkey : PlainKey target := hplain
      obtain ⟨engine', list, -, hget, hsound', hinverted, -, -⟩ :=
        getPostingListInternal_stored hsound hkey
      refine ⟨engine', by rw [applyEvent, hget]; rfl, hsound', fun term hterm => ?_⟩
      exact (hfollows term hterm).skip rfl (fun docKey => by rw [hinverted]) (by rw [hinverted])
        (by rw [hinverted])
  | delta target added removed =>
      have hkey : PlainKey target := hplain
      obtain ⟨engine', hok, hchanged⟩ := applyTermDelta_changed hsound hkey added removed
      refine ⟨engine', hok, hchanged.sound, fun term hterm => ?_⟩
      by_cases hsame : term = target
      · have hdelta : (TermEvent.delta target added removed).deltaFor term =
            some ⟨added, removed⟩ := if_pos hsame.symm
        have hsome : deltasFor term (events ++ [.delta target added removed]) ≠ [] := by
          simp [deltasFor, hdelta]
        subst hsame
        refine ⟨fun docKey => ?_, fun _ => ⟨hchanged.settled, hchanged.few⟩,
          fun hempty => absurd hempty hsome⟩
        rw [hchanged.posting, mapAfter_snoc, hdelta]
        exact ((lookup_apply _ _ _).trans (by rw [(hfollows _ hterm).posting])).symm
      · have hnone : (TermEvent.delta target added removed).deltaFor term = none :=
          if_neg fun heq => hsame heq.symm
        exact (hfollows term hterm).skip hnone (hchanged.otherPosting term hterm hsame)
          (hchanged.otherOld term hterm hsame) (hchanged.otherListed term hterm hsame)

theorem runEvents_follows (hsound : Sound host start)
    (hplain : ∀ event ∈ events, PlainKey event.term) :
    ∃ engine, start.runEvents host events = .ok engine ∧ Sound host engine ∧
      ∀ term, PlainKey term → Follows start events engine term := by
  induction events using List.reverseRecOn with
  | nil =>
      refine ⟨start, rfl, hsound, fun term hterm => ⟨fun docKey => rfl, fun hsome => ?_, fun _ => rfl⟩⟩
      exact absurd rfl hsome
  | append_singleton events event ih =>
      obtain ⟨engine, hrun, hsound', hfollows⟩ :=
        ih fun event hevent => hplain event (List.mem_append_left _ hevent)
      obtain ⟨engine', hstep, hsound'', hfollows'⟩ :=
        applyEvent_follows hsound' (hplain event (by simp)) hfollows
      exact ⟨engine', FallibleRun.foldlM_snoc hrun hstep, hsound'', hfollows'⟩

theorem mapAfter_key {docKey : String} {entry : PostingEntry}
    (hposting : ∀ docKey,
      storedPosting engine.inverted term docKey = (mapAfter start events term).lookup docKey)
    (h : (mapAfter start events term).lookup docKey = some entry) : entry.docKey = docKey :=
  key_of_replay ((hposting docKey).trans h)

/-- For every term and every sequence of deltas, the posting list is that of the plain map, a
term with a delta has fewer than eight segments, its segment keys are distinct, and what is
cached is what is stored. -/
theorem runEvents_transparent (host : FtsHost) (start : FtsEngine) (events : List TermEvent)
    (hsound : Sound host start) (hplain : ∀ event ∈ events, PlainKey event.term) :
    ∃ engine, start.runEvents host events = .ok engine ∧
      (∀ term, PlainKey term →
        (deltasFor term events ≠ [] →
          storedList engine.inverted term = .ok (listOf term (mapAfter start events term)) ∧
            (listedKeys engine.inverted term).length < 8) ∧
        (deltasFor term events = [] →
          storedList engine.inverted term = storedList start.inverted term) ∧
        (listedKeys engine.inverted term).Nodup ∧
        (engine.getPostingListInternal term).map (·.2) = storedList engine.inverted term) ∧
      ∀ entry ∈ engine.postingCache.entries,
        storedList engine.inverted entry.1 = .ok entry.2 := by
  obtain ⟨engine, hrun, hsound', hfollows⟩ := runEvents_follows hsound hplain
  refine ⟨engine, hrun, fun term hterm => ⟨fun hsome => ?_, fun hempty => ?_,
    hsound'.store.nodup term hterm, ?_⟩, fun entry hentry => (hsound'.cache entry hentry).2⟩
  · have hfollow := hfollows term hterm
    obtain ⟨hold, hfew⟩ := hfollow.touched hsome
    have hlist : resolve term (storedDeltas engine.inverted term) =
        listOf term (mapAfter start events term) :=
      listOf_congr (fun _ _ => mapAfter_key hfollow.posting) hfollow.posting
    rw [hsound'.store.storedList_eq hterm, hold, Option.getD_none, hlist]
    exact ⟨rfl, hfew⟩
  · refine storedList_congr hsound.store hsound'.store hterm (fun docKey => ?_)
      ((hfollows term hterm).untouched hempty)
    rw [(hfollows term hterm).posting, mapAfter, hempty]
    rfl
  · obtain ⟨engine', list, hlist, hget, -⟩ := getPostingListInternal_stored hsound' hterm
    rw [hlist, hget]
    rfl

def reindexedEvents : List TermEvent :=
  [.delta "rust" [⟨"guide", 2, 5⟩] [], .read "rust", .delta "rust" [⟨"guide", 1, 4⟩] ["guide"]]

theorem runEvents_transparent_reindexed :
    ∃ engine, ({} : FtsEngine).runEvents wordHost reindexedEvents = .ok engine ∧
      storedList engine.inverted "rust" = .ok { term := "rust", entries := [⟨"guide", 1, 4⟩] } := by
  have hplain : ∀ event ∈ reindexedEvents, PlainKey event.term := by decide
  obtain ⟨engine, hrun, hterms, -⟩ :=
    runEvents_transparent wordHost {} reindexedEvents (new_sound wordHost) hplain
  have hlist := ((hterms "rust" (by decide)).1 (by simp [deltasFor, reindexedEvents,
    TermEvent.deltaFor])).1
  have hmap : listOf "rust" (mapAfter {} reindexedEvents "rust") =
      { term := "rust", entries := [⟨"guide", 1, 4⟩] } := by decide
  exact ⟨engine, hrun, hlist.trans (congrArg Except.ok hmap)⟩

end FtsEngine

end BenShu.Engram
