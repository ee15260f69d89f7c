import MidIR.Proofs.Walk.Rebuilding
import MidIR.Proofs.Walk.Shown

namespace MidIR

def Event.shows (p : Place) : Event → Bool
  | .place _ _ q => q = p
  | _ => false

def tally (p : Place) (count : Nat) (event : Event) : Nat :=
  if event.shows p then count + 1 else count

theorem foldl_tally (p : Place) (count : Nat) (events : List Event) :
    events.foldl (tally p) count = count + events.countP (Event.shows p) := by
  induction events generalizing count with
  | nil => rfl
  | cons event events ih =>
    rw [List.foldl_cons, ih, List.countP_cons, tally]
    split <;> omega

theorem countP_shows (p : Place) (events : List Event) :
    events.countP (Event.shows p) = (shown events).count p := by
  induction events with
  | nil => rfl
  | cons event events ih =>
    cases event with
    | place location use q => simp [List.countP_cons, List.count_cons, Event.shows, ih]
    | _ => rw [List.countP_cons_of_neg (by simp [Event.shows]), shown_cons rfl, ih]

theorem Place.countP_walk_self {location : Location} {use : Use} {p : Place} :
    (p.walk location use).countP (Event.shows p) = 1 := by
  rw [countP_shows, p.shown_walk, count_parts_self]

namespace Rebuilder

variable {σ : Type} (rebuilder : Rebuilder σ) {step : σ → Event → σ}

def inside (location : Location) : Place → StateM σ Place
  | .field base i => return .field (← rebuilder.place location .projection base) i
  | .deref base => return .deref (← rebuilder.place location .projection base)
  | .index base position =>
    return .index (← rebuilder.place location .projection base)
      (← rebuilder.place location .read position)
  | .downcast base i => return .downcast (← rebuilder.place location .projection base) i
  | leaf => return leaf

theorem place_eq (location : Location) (use : Use) (p : Place) :
    rebuilder.place location use p =
      (rebuilder.meet (.place location use p) >>= fun _ => rebuilder.replace p) >>= fun other? =>
        other?.elim (rebuilder.inside location p) pure := by
  rw [bind_assoc]
  cases p <;> simp only [place] <;> refine bind_congr fun _ => bind_congr fun other? => ?_ <;>
    cases other? <;> rfl

variable {rebuilder} {location : Location} {use : Use} {p q : Place} {events : List Event}

theorem place_of_kept
    (met : Rebuilds step (rebuilder.meet (.place location use p) >>= fun _ => rebuilder.replace p)
      none [.place location use p])
    (within : Rebuilds step (rebuilder.inside location p) q events) :
    Rebuilds step (rebuilder.place location use p) q (.place location use p :: events) := by
  rw [place_eq]
  exact met.bind within

theorem place_of_replaced
    (met : Rebuilds step (rebuilder.meet (.place location use p) >>= fun _ => rebuilder.replace p)
      (some q) events) :
    Rebuilds step (rebuilder.place location use p) q events := by
  intro s
  rw [place_eq, StateT.run_bind, met s]
  rfl

theorem recorder_follows : recorder.Follows (fun noted event => noted ++ [event]) id where
  meet _ _ := fun _ => rfl
  place location use p := by
    induction p generalizing use with
    | field base i ih | deref base ih | downcast base i ih =>
      apply place_of_kept (fun _ => rfl)
      exact (ih .projection).returning
    | index base position ih ih' =>
      apply place_of_kept (fun _ => rfl)
      apply (ih .projection).bind
      exact (ih' .read).returning
    | _ => exact place_of_kept (fun _ => rfl) .pure

variable {source target : Place}

theorem substitution_place
    (kept : p ≠ source → Place.subst source target p = q)
    (listed : p.walk location use = .place location use p :: events)
    (within : Rebuilds (tally source) ((substitution source target).inside location p) q events) :
    Rebuilds (tally source) ((substitution source target).place location use p)
      (Place.subst source target p) (p.walk location use) := by
  by_cases same : p = source
  · have put : Place.subst source target p = target := by
      rw [Place.subst.eq_def, if_pos same]
    apply place_of_replaced
    intro count
    rw [foldl_tally, put, ← same, Place.countP_walk_self]
    simp [substitution]
    rfl
  · rw [kept same, listed]
    apply place_of_kept _ within
    intro count
    simp [substitution, same, tally, Event.shows]
    rfl

theorem substitution_follows :
    (substitution source target).Follows (tally source) (Place.subst source target) where
  meet event other := by
    intro count
    cases event with
    | place location use p => cases other
    | _ => rfl
  place location use p := by
    induction p generalizing use with
    | field base i ih | deref base ih | downcast base i ih =>
      apply substitution_place (fun kept => by rw [Place.subst, if_neg kept]) rfl
      exact (ih .projection).returning
    | index base position ih ih' =>
      apply substitution_place (fun kept => by rw [Place.subst, if_neg kept]) rfl
      apply (ih .projection).bind
      exact (ih' .read).returning
    | _ => exact substitution_place (fun kept => by rw [Place.subst.eq_def, if_neg kept]) rfl .pure

end Rebuilder

end MidIR
