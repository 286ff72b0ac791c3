import Mathlib.Data.List.Nodup
import VynkorPlugins.Mqtt.Client

/-!
# Dispatch and the rules of topic filters

A message goes to a subscription to its very topic, or to those whose patterns pass one of two tests; the
rules of topic filters ask for more.
-/

namespace Mqtt.StreamManager

open Topics

/-- All subscriptions are to topic filters. -/
def Filters (m : StreamManager) : Prop := ∀ entry ∈ m.subscriptions, IsFilter entry.1.toList

/-- The message is sent once to each subscription whose filter matches its topic, and to no other. -/
def Follows (m : StreamManager) (msg : MqttMessage) : Prop :=
  (m.dispatch msg).Perm
    ((m.subscriptions.filter fun entry => isMatch entry.1.toList msg.topic.toList).map fun entry =>
      (entry.2, msg))

/-- The filters that the two tests get wrong for a topic. -/
inductive Awkward (pattern topic : List Char) : Prop
  /-- `#` stands for the level before it as well. -/
  | parent (h : pattern = topic ++ ['/', '#'])
  /-- A `+` before a `#` is compared as a character. -/
  | wildcards (hplus : '+' ∈ pattern) (hhash : '#' ∈ pattern) (h : isMatch pattern topic = true)
  /-- A first wildcard stands for a level with `$`. -/
  | system (htopic : topic.head? = some '$') (hwild : startsWild pattern = true)
      (h : pattern = ['#'] ∨ '#' ∉ pattern ∧ levelsMatch (levels pattern) (levels topic) = true)

/-- The topic is not subscribed to by its name and matched by another filter, and no filter is awkward where
it is not. -/
def Simple (m : StreamManager) (topic : String) : Prop :=
  ((∃ entry ∈ m.subscriptions, entry.1 = topic) →
    ∀ entry ∈ m.subscriptions, entry.1 ≠ topic → isMatch entry.1.toList topic.toList = false) ∧
  ((∀ entry ∈ m.subscriptions, entry.1 ≠ topic) →
    ∀ entry ∈ m.subscriptions, ¬ Awkward entry.1.toList topic.toList)

variable {p t pre : List Char} {m : StreamManager} {msg : MqttMessage}

/-! ## The two tests -/

theorem not_wild_of_levels (hhash : '#' ∉ p) (hplus : '+' ∉ p) :
    ∀ f ∈ levels p, f ≠ ['#'] ∧ f ≠ ['+'] := by
  intro f hf
  constructor
  · rintro rfl
    exact hhash ((mem_levels (by decide)).mpr ⟨_, hf, List.mem_singleton_self _⟩)
  · rintro rfl
    exact hplus ((mem_levels (by decide)).mpr ⟨_, hf, List.mem_singleton_self _⟩)

theorem startsWild_eq_false (hhash : '#' ∉ p) (hplus : '+' ∉ p) : startsWild p = false := by
  cases p with
  | nil => rfl
  | cons c p =>
    rw [List.mem_cons, not_or] at hhash hplus
    simp [startsWild, Ne.symm hhash.1, Ne.symm hplus.1]

theorem begins_hash (pre t : List Char) : begins (pre ++ ['/', '#']) t = (pre ++ ['/']).isPrefixOf t := by
  have hdrop : (pre ++ ['/', '#']).rdropWhile (· = '#') = pre ++ ['/'] := by
    rw [show pre ++ ['/', '#'] = (pre ++ ['/']) ++ ['#'] by simp,
      List.rdropWhile_concat_pos (fun c => decide (c = '#')) _ '#' (by decide),
      List.rdropWhile_concat_neg (fun c => decide (c = '#')) _ '/' (by decide)]
  unfold begins
  rw [hdrop]

theorem receives_hash (pre t : List Char) :
    receives (pre ++ ['/', '#']) t = (pre ++ ['/']).isPrefixOf t := by
  have hlast : (pre ++ ['/', '#']).getLast? = some '#' := by simp
  unfold receives
  rw [if_pos hlast, begins_hash]

theorem getLast_ne_hash (hhash : '#' ∉ p) : p.getLast? ≠ some '#' :=
  fun h => hhash (List.mem_of_getLast? h)

/-- `#` alone is awkward for the topics with `$` only. -/
theorem receives_all_iff : receives ['#'] t = isMatch ['#'] t ↔ ¬ Awkward ['#'] t := by
  have hmatch : levelsMatch (levels ['#']) (levels t) = true := by
    obtain ⟨l, ls, hls⟩ := List.exists_cons_of_ne_nil (levels_ne_nil t)
    rw [hls, show levels ['#'] = [['#']] by decide]
    rfl
  have hreceives : receives ['#'] t = true := rfl
  have hwild : startsWild ['#'] = true := rfl
  rw [hreceives, isMatch, hmatch, hwild]
  by_cases hsystem : t.head? = some '$'
  · simp only [hsystem, decide_true, Bool.and_self, Bool.not_true, Bool.and_false, Bool.true_eq_false,
      false_iff, not_not]
    exact .system hsystem hwild (.inl rfl)
  · simp only [hsystem, decide_false, Bool.and_false, Bool.not_false, Bool.and_self, true_iff]
    intro hawkward
    cases hawkward with
    | parent h => simpa using congrArg List.length h
    | wildcards hplus => exact absurd hplus (by decide)
    | system htopic => exact hsystem htopic

/-- Where a `#` follows levels without wildcards, only the parent level is missed. -/
theorem receives_below_iff (hhash : '#' ∉ pre) (hplus : '+' ∉ pre) :
    receives (pre ++ ['/', '#']) t = isMatch (pre ++ ['/', '#']) t ↔
      ¬ Awkward (pre ++ ['/', '#']) t := by
  have hlevels : levels (pre ++ ['/', '#']) = levels pre ++ [['#']] := levels_append pre ['#']
  have hwild : startsWild (pre ++ ['/', '#']) = false := by
    cases pre with
    | nil => rfl
    | cons c pre =>
      rw [List.mem_cons, not_or] at hhash hplus
      simp [startsWild, Ne.symm hhash.1, Ne.symm hplus.1]
  have hmatch : isMatch (pre ++ ['/', '#']) t = true ↔ t = pre ∨ pre ++ ['/'] <+: t := by
    rw [isMatch, hwild, hlevels, Bool.false_and, Bool.not_false, Bool.and_true,
      levelsMatch_concat_hash (not_wild_of_levels hhash hplus), levels_prefix_iff]
  rw [receives_hash]
  by_cases hparent : t = pre
  · subst hparent
    have hno : (t ++ ['/']).isPrefixOf t = false := by
      rw [Bool.eq_false_iff, ne_eq, List.isPrefixOf_iff_prefix]
      intro h
      have hle := h.length_le
      rw [List.length_append, List.length_singleton] at hle
      omega
    rw [hno, hmatch.mpr (.inl rfl)]
    simp only [Bool.false_eq_true, false_iff, not_not]
    exact .parent rfl
  · have heq : (pre ++ ['/']).isPrefixOf t = isMatch (pre ++ ['/', '#']) t := by
      rw [Bool.eq_iff_iff, List.isPrefixOf_iff_prefix, hmatch]
      simp [hparent]
    simp only [heq, true_iff]
    intro hawkward
    cases hawkward with
    | parent h => exact hparent (List.append_cancel_right h).symm
    | wildcards hin => simp [hplus] at hin
    | system _ h =>
      rw [hwild] at h
      cases h

/-- Where a `+` comes before a `#`, nothing is received. -/
theorem receives_wildcards_iff (hplus : '+' ∈ pre) (ht : IsTopic t) :
    receives (pre ++ ['/', '#']) t = isMatch (pre ++ ['/', '#']) t ↔
      ¬ Awkward (pre ++ ['/', '#']) t := by
  have hno : (pre ++ ['/']).isPrefixOf t = false := by
    rw [Bool.eq_false_iff, ne_eq, List.isPrefixOf_iff_prefix]
    intro h
    exact ht.plus (h.subset (List.mem_append_left _ hplus))
  rw [receives_hash, hno]
  constructor
  · intro hmatch hawkward
    cases hawkward with
    | parent h =>
      have hpre : pre = t := List.append_cancel_right h
      exact ht.plus (hpre ▸ hplus)
    | wildcards _ _ h =>
      rw [h] at hmatch
      cases hmatch
    | system _ _ h =>
      rcases h with h | h
      · simpa using congrArg List.length h
      · exact h.1 (by simp)
  · intro hnot
    by_contra hmatch
    rw [eq_comm, Bool.not_eq_false] at hmatch
    exact hnot (.wildcards (List.mem_append_left _ hplus) (by simp) hmatch)

/-- Without `#`, only the levels with `$` are awkward. -/
theorem receives_levelwise_iff (hhash : '#' ∉ p) (hplus : '+' ∈ p) :
    receives p t = isMatch p t ↔ ¬ Awkward p t := by
  have hreceives : receives p t = levelsMatch (levels p) (levels t) := by
    have hnone : ∀ f ∈ levels p, f ≠ ['#'] := by
      rintro f hf rfl
      exact hhash ((mem_levels (by decide)).mpr ⟨_, hf, List.mem_singleton_self _⟩)
    unfold receives
    rw [if_neg (getLast_ne_hash hhash), if_pos (by simpa using hplus), levelsMatch_eq_all hnone]
    rfl
  rw [hreceives, isMatch]
  constructor
  · intro heq hawkward
    cases hawkward with
    | parent h => exact hhash (by simp [h])
    | wildcards _ hin => exact hhash hin
    | system htopic hwild h =>
      rcases h with rfl | ⟨-, h⟩
      · exact hhash (List.mem_singleton_self _)
      · simp [h, hwild, htopic] at heq
  · intro hnot
    by_cases hmatch : levelsMatch (levels p) (levels t) = true
    · have hsystem : (startsWild p && decide (t.head? = some '$')) = false := by
        rw [Bool.eq_false_iff]
        intro h
        rw [Bool.and_eq_true, decide_eq_true_eq] at h
        exact hnot (.system h.2 h.1 (.inr ⟨hhash, hmatch⟩))
      rw [hsystem, hmatch]
      rfl
    · rw [Bool.not_eq_true] at hmatch
      rw [hmatch, Bool.false_and]

/-- Without wildcards, a filter matches its own topic only. -/
theorem receives_plain_iff (hhash : '#' ∉ p) (hplus : '+' ∉ p) (hne : p ≠ t) :
    receives p t = isMatch p t ↔ ¬ Awkward p t := by
  have hreceives : receives p t = false := by
    unfold receives
    rw [if_neg (getLast_ne_hash hhash), if_neg (by simpa using hplus)]
  have hmatch : isMatch p t = false := by
    rw [isMatch, Bool.and_eq_false_iff, Bool.eq_false_iff, ne_eq,
      levelsMatch_iff_eq (not_wild_of_levels hhash hplus)]
    exact .inl fun h => hne (levels_inj h)
  rw [hreceives, hmatch]
  simp only [true_iff]
  intro hawkward
  cases hawkward with
  | parent h => exact hhash (by simp [h])
  | wildcards hin => exact hplus hin
  | system _ hwild =>
    rw [startsWild_eq_false hhash hplus] at hwild
    cases hwild

theorem receives_eq_isMatch_iff (hp : IsFilter p) (ht : IsTopic t) (hne : p ≠ t) :
    receives p t = isMatch p t ↔ ¬ Awkward p t := by
  by_cases hhash : '#' ∈ p
  · rcases hp.eq_hash hhash with rfl | ⟨pre, hpre, rfl⟩
    · exact receives_all_iff
    · by_cases hplus : '+' ∈ pre
      · exact receives_wildcards_iff hplus ht
      · exact receives_below_iff hpre hplus
  · by_cases hplus : '+' ∈ p
    · exact receives_levelwise_iff hhash hplus
    · exact receives_plain_iff hhash hplus hne

/-! ## Dispatch -/

/-- A topic matches itself. -/
theorem isMatch_self (ht : IsTopic t) : isMatch t t = true := by
  rw [isMatch, startsWild_eq_false ht.hash ht.plus, Bool.false_and, Bool.not_false, Bool.and_true,
    levelsMatch_iff_eq (not_wild_of_levels ht.hash ht.plus)]

theorem entry_inj (m : StreamManager) {e e' : String × Subscription} (he : e ∈ m.subscriptions)
    (he' : e' ∈ m.subscriptions) (h : e.2 = e'.2) : e = e' := by
  have htopic := m.topics e he
  have htopic' := m.topics e' he'
  rw [h, htopic'] at htopic
  exact Prod.ext htopic.symm h

theorem subscriptions_nodup (m : StreamManager) : m.subscriptions.Nodup :=
  List.Nodup.of_map Prod.fst m.nodup

/-- Two selections of the subscriptions are sent the same message alike just when they are the same. -/
theorem sent_perm_iff {q r : String × Subscription → Bool} :
    ((m.subscriptions.filter q).map fun e => (e.2, msg)).Perm
        ((m.subscriptions.filter r).map fun e => (e.2, msg)) ↔
      ∀ e ∈ m.subscriptions, q e = r e := by
  constructor
  · intro hperm e he
    have hmem : ∀ s : String × Subscription → Bool,
        (e.2, msg) ∈ (m.subscriptions.filter s).map (fun e => (e.2, msg)) ↔ s e = true := by
      intro s
      constructor
      · intro hin
        obtain ⟨e', he', heq⟩ := List.mem_map.mp hin
        obtain ⟨hin', hs⟩ := List.mem_filter.mp he'
        rw [m.entry_inj hin' he (Prod.mk.inj heq).1] at hs
        exact hs
      · exact fun hs => List.mem_map.mpr ⟨e, List.mem_filter.mpr ⟨he, hs⟩, rfl⟩
    rw [Bool.eq_iff_iff, ← hmem q, ← hmem r]
    exact hperm.mem_iff
  · intro heq
    rw [List.filter_congr heq]

theorem get_eq_some {e : String × Subscription} (he : e ∈ m.subscriptions) : m.get e.1 = some e.2 := by
  unfold get
  cases hfind : m.subscriptions.find? fun entry => entry.1 = e.1 with
  | none =>
    rw [List.find?_eq_none] at hfind
    have hne := hfind e he
    simp at hne
  | some e' =>
    have hkey : e'.1 = e.1 := by simpa using List.find?_some hfind
    have hsame : e' = e := List.inj_on_of_nodup_map m.nodup (List.mem_of_find?_eq_some hfind) he hkey
    rw [hsame]
    rfl

theorem get_eq_none {topic : String} (h : ∀ e ∈ m.subscriptions, e.1 ≠ topic) : m.get topic = none := by
  unfold get
  rw [Option.map_eq_none_iff, List.find?_eq_none]
  intro e he
  simpa using h e he

/-- A message on a topic that is subscribed to goes there alone. -/
theorem dispatch_exact {e : String × Subscription} (he : e ∈ m.subscriptions) (hkey : e.1 = msg.topic) :
    m.dispatch msg = (m.subscriptions.filter fun e => e.1 = msg.topic).map fun e => (e.2, msg) := by
  have hone : (m.subscriptions.filter fun e => e.1 = msg.topic) = [e] := by
    refine List.perm_singleton.mp ((List.perm_ext_iff_of_nodup ?_ (List.nodup_singleton e)).mpr ?_)
    · exact m.subscriptions_nodup.filter _
    · intro e'
      rw [List.mem_filter, List.mem_singleton, decide_eq_true_eq]
      constructor
      · rintro ⟨he', hkey'⟩
        exact List.inj_on_of_nodup_map m.nodup he' he (hkey'.trans hkey.symm)
      · rintro rfl
        exact ⟨he, hkey⟩
  unfold dispatch
  rw [← hkey, get_eq_some he, hkey, hone]
  rfl

theorem dispatch_patterns (h : ∀ e ∈ m.subscriptions, e.1 ≠ msg.topic) :
    m.dispatch msg = (m.subscriptions.filter fun e => receives e.1.toList msg.topic.toList).map fun e =>
      (e.2, msg) := by
  unfold dispatch
  rw [get_eq_none h]

/-- Messages go to the subscriptions whose filters match just where those filters are simple. -/
theorem follows_iff_simple (m : StreamManager) (msg : MqttMessage) (hf : m.Filters)
    (ht : IsTopic msg.topic.toList) : m.Follows msg ↔ m.Simple msg.topic := by
  unfold Follows Simple
  by_cases hexact : ∃ e ∈ m.subscriptions, e.1 = msg.topic
  · obtain ⟨e, he, hkey⟩ := hexact
    rw [dispatch_exact he hkey, sent_perm_iff]
    constructor
    · intro heq
      refine ⟨fun _ e' he' hne => ?_, fun hnone => absurd hkey (hnone e he)⟩
      rw [← heq e' he', decide_eq_false_iff_not]
      exact hne
    · rintro ⟨hothers, -⟩ e' he'
      by_cases hkey' : e'.1 = msg.topic
      · rw [hkey', isMatch_self ht]
        exact decide_eq_true rfl
      · rw [hothers ⟨e, he, hkey⟩ e' he' hkey']
        exact decide_eq_false hkey'
  · have hnone : ∀ e ∈ m.subscriptions, e.1 ≠ msg.topic := fun e he hkey => hexact ⟨e, he, hkey⟩
    have hne : ∀ e ∈ m.subscriptions, e.1.toList ≠ msg.topic.toList :=
      fun e he h => hnone e he (String.toList_inj.mp h)
    rw [dispatch_patterns hnone, sent_perm_iff]
    constructor
    · intro heq
      refine ⟨fun h => absurd h hexact, fun _ e he => ?_⟩
      exact (receives_eq_isMatch_iff (hf e he) ht (hne e he)).mp (heq e he)
    · rintro ⟨-, hsimple⟩ e he
      exact (receives_eq_isMatch_iff (hf e he) ht (hne e he)).mpr (hsimple hnone e he)

/-- A house, and one of its rooms. -/
def house : StreamManager where
  subscriptions := [("home/#", ⟨"home/#", .AtMostOnce, 0⟩), ("home/kitchen", ⟨"home/kitchen", .AtMostOnce, 1⟩)]
  nodup := by decide
  topics := by simp

def temperature (topic : String) : MqttMessage := ⟨topic, "23.5".toUTF8, .AtMostOnce⟩

theorem house_filters : house.Filters := by
  intro entry hentry
  rcases List.mem_cons.mp hentry with rfl | hentry
  · constructor <;> first | constructor <;> decide | decide
  · obtain rfl := List.mem_singleton.mp hentry
    constructor <;> first | constructor <;> decide | decide

theorem isTopic_attic : IsTopic "home/attic".toList := by
  constructor <;> first | constructor <;> decide | decide

theorem isTopic_kitchen : IsTopic "home/kitchen".toList := by
  constructor <;> first | constructor <;> decide | decide

theorem follows_iff_simple_attic :
    house.Follows (temperature "home/attic") ↔ house.Simple "home/attic" :=
  follows_iff_simple house (temperature "home/attic") house_filters isTopic_attic

/-- Nobody but the subscriber to the room is sent its temperature. -/
theorem not_follows_kitchen :
    ¬ ∀ (m : StreamManager) (msg : MqttMessage), m.Filters → IsTopic msg.topic.toList → m.Follows msg := by
  intro h
  have hperm := h house (temperature "home/kitchen") house_filters isTopic_kitchen
  have hlength := hperm.length_eq
  revert hlength
  decide

end Mqtt.StreamManager
