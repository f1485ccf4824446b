import EntityQuery.Proofs.Fetch.RoundTrips
import EntityQuery.Proofs.Fetch.Spelling
import EntityQuery.Proofs.Pager
import EntityQuery.Request

/-!
# Offsets

The offset of a page comes from a pager, which keeps to what a store takes. The offset of a query
fetch comes from the text of the plan, where a position may be any number of 64 bits: it is one less
than the first position that the text asks for, and nothing compares it with the largest offset that
a store takes. So **a query fetch starts where a store can start exactly if its first position is
not beyond the largest offset by more than one** (`prepared_offsets`), and where it does not, the
offset is handed to the store all the same (`prepared_offset_beyond_store`).

On the one side what is read as a fetch is written in the text (`AsksFrom`, `written_of_parse`); on
the other side the queries of a plan that is carried out start at the first target or where a query
fetch of the plan says (`execute_offsets`).
-/

namespace EntityQuery

/-! ## What the text of a plan asks for -/

namespace Fetch

/-- The text has the name of an association with square brackets after it, in which it asks for
the targets from this position on. -/
def AsksFrom (text : List Char) (name : String) (first : Nat) : Prop :=
  ∃ before body after last,
    text = before ++ (name.toList ++ '[' :: (body ++ ']' :: after)) ∧ Asks body first last

/-- A query fetch is one that the text asks for. -/
def Written (text : List Char) (f : Fetch) : Prop :=
  ∀ offset limit sorting, f.kind = .query offset limit sorting →
    AsksFrom text f.name (offset + 1) ∧ offset + 1 < UInt64.size

theorem Written.mono {s text : List Char} {f : Fetch} (written : Written s f) (h : s <:+ text) :
    Written text f := by
  obtain ⟨start, rfl⟩ := h
  intro offset limit sorting kind
  obtain ⟨⟨before, body, after, last, rfl, asks⟩, small⟩ := written offset limit sorting kind
  exact ⟨⟨start ++ before, body, after, last, (List.append_assoc ..).symm, asks⟩, small⟩

end Fetch

namespace FetchPlan

open Fetch (Written)

variable {size : Nat} {s rest : List Char} {f : Fetch}

theorem bracketed_eq_ok {opener closer : Char} {body : Option (List Char)}
    (h : bracketed size opener closer s = .ok (body, rest)) :
    (body = none ∧ rest = s) ∨ ∃ b, body = some b ∧ s = opener :: (b ++ closer :: rest) := by
  unfold bracketed at h
  split at h
  · cases h
    exact .inl ⟨rfl, rfl⟩
  · split at h
    · next opened =>
      split at h
      · next cut =>
        cases h
        rw [opened, (Text.cut_eq_some_iff.mp cut).2]
        exact .inr ⟨_, rfl, rfl⟩
      · cases h
    · cases h
      exact .inl ⟨rfl, rfl⟩

theorem suffix_of_bracketed {opener closer : Char} {body : Option (List Char)}
    (h : bracketed size opener closer s = .ok (body, rest)) : rest <:+ s := by
  rcases bracketed_eq_ok h with ⟨-, rfl⟩ | ⟨b, -, rfl⟩
  · exact List.suffix_refl _
  · exact ⟨opener :: (b ++ [closer]), by simp⟩

theorem located_eq_ok {α : Type} {x : Except PlanFault α} {a : α} :
    located size rest x = .ok a ↔ x = .ok a := by
  cases x <;> simp [located]

/-- A query fetch has its offset from square brackets after the name. -/
theorem written_bounded {name body rest : List Char} {bounds : Option (Nat × Option Nat)}
    (whole : s = name ++ '[' :: (body ++ ']' :: rest)) (h : Fetch.bounds body = .ok bounds) :
    Written s (bounded (String.ofList name) (some bounds)) := by
  rintro offset limit sorting kind
  cases bounds with
  | none => cases kind
  | some part =>
    cases kind
    obtain ⟨first, last, asks, spans⟩ := Fetch.bounds_eq_ok_iff.mp h
    obtain ⟨rfl, -, small, -⟩ := spans
    refine ⟨⟨[], body, rest, last, ?_, asks⟩, small⟩
    simpa [bounded] using whole

theorem written_of_withSort {f' : Fetch} {sorting : List SortKey} (written : Written s f)
    (h : f.withSort sorting = .ok f') : Written s f' := by
  unfold Fetch.withSort at h
  split at h
  · cases h
  · next kind =>
    cases h
    intro _ _ _ same
    cases same
    exact written _ _ _ kind

/-- What is read as a fetch is written there. -/
theorem written_of_fetch (h : fetch size s = .ok (f, rest)) : Written s f ∧ rest <:+ s := by
  unfold fetch at h
  dsimp only at h
  split at h
  · cases h
  obtain ⟨⟨body, afterBounds⟩, hbody, h⟩ := bind_eq_ok.mp h
  obtain ⟨bounds, hbounds, h⟩ := bind_eq_ok.mp h
  obtain ⟨⟨order, rest'⟩, horder, h⟩ := bind_eq_ok.mp h
  have written : Written s (bounded (String.ofList (s.takeWhile isNameChar)) bounds) := by
    have bounds := located_eq_ok.mp hbounds
    rcases bracketed_eq_ok hbody with ⟨rfl, -⟩ | ⟨b, rfl, cut⟩
    · cases bounds
      nofun
    · obtain ⟨part, hpart, bounds⟩ := bind_eq_ok.mp bounds
      cases bounds
      have whole : s = s.takeWhile isNameChar ++ '[' :: (b ++ ']' :: afterBounds) := by
        rw [← cut, List.takeWhile_append_dropWhile]
      exact written_bounded whole hpart
  have suffix : rest' <:+ s :=
    ((suffix_of_bracketed horder).trans (suffix_of_bracketed hbody)).trans (List.dropWhile_suffix _)
  dsimp only at h
  split at h
  · cases h
    exact ⟨written, suffix⟩
  · obtain ⟨sorting, -, h⟩ := bind_eq_ok.mp h
    obtain ⟨sorted, hsorted, h⟩ := bind_eq_ok.mp h
    cases h
    exact ⟨written_of_withSort written hsorted, suffix⟩

/-- What is cut from a text is written in it. -/
theorem written_of_mem_itemsOf {index : Nat} (h : .fetch index f ∈ (itemsOf size s).1) :
    Written s f := by
  induction hn : s.length using Nat.strong_induction_on generalizing s with
  | _ n ih =>
    rw [itemsOf_eq] at h
    have start : Text.trimStart s <:+ s := List.dropWhile_suffix _
    split at h
    · cases h
    next c rest hs =>
    rw [hs] at start
    -- Each item leaves less of the text than there was.
    have left {t : List Char} (ht : t <:+ rest) (h : .fetch index f ∈ (itemsOf size t).1) :
        Written s f := by
      have shorter : t.length < n := by
        have := start.length_le
        have := ht.length_le
        rw [List.length_cons] at *
        omega
      exact (ih _ shorter h rfl).mono ((ht.trans (List.suffix_cons c rest)).trans start)
    split at h
    · exact left (List.suffix_refl _) ((List.mem_cons.mp h).resolve_left nofun)
    split at h
    · exact left (List.suffix_refl _) ((List.mem_cons.mp h).resolve_left nofun)
    split at h
    · cases h
    next f' after read =>
    obtain ⟨written, suffix⟩ := written_of_fetch read
    rcases List.mem_cons.mp h with same | h
    · cases same
      exact written.mono start
    · refine left ((List.suffix_cons_iff.mp suffix).resolve_left ?_) h
      rintro rfl
      exact Nat.lt_irrefl _ (length_fetch read)

theorem mem_of_read {item : Item} {b b' : Builder} (h : b.read item = .ok b') :
    ∀ e ∈ b'.plan.entries, e ∈ b.plan.entries ∨ ∃ index, .fetch index e.2 = item := by
  intro e he
  unfold Builder.read at h
  split at h
  · split at h
    · cases h
    · cases h
      exact .inl he
  · split at h
    · cases h
    · cases h
      exact .inl he
  · split at h
    · next index f _ plan added =>
      cases h
      obtain ⟨-, rfl⟩ := toOption_add.mp (congrArg Except.toOption added)
      exact (List.mem_append.mp he).imp_right fun he => ⟨index, by rw [List.mem_singleton.mp he]⟩
    · cases h
    · cases h

/-- What has been entered into a plan has been read. -/
theorem mem_of_foldlM_read {items : List Item} {b b' : Builder}
    (h : items.foldlM Builder.read b = .ok b') :
    ∀ e ∈ b'.plan.entries, e ∈ b.plan.entries ∨ ∃ index, .fetch index e.2 ∈ items := by
  induction items generalizing b with
  | nil =>
    cases h
    exact fun e he => .inl he
  | cons item items ih =>
    obtain ⟨b₁, one, rest⟩ := bind_eq_ok.mp (List.foldlM_cons.symm.trans h)
    intro e he
    rcases ih rest e he with he | ⟨index, he⟩
    · exact (mem_of_read one e he).imp_right fun ⟨index, same⟩ => ⟨index, same ▸ List.mem_cons_self⟩
    · exact .inr ⟨index, List.mem_cons_of_mem item he⟩

theorem written_of_parse {text : String} {p : FetchPlan} (h : parse text = .ok p) :
    ∀ e ∈ p.entries, Written text.toList e.2 := by
  obtain ⟨b, read, h⟩ := bind_eq_ok.mp h
  have plan : b.plan = p := by
    split at h
    · cases h
    · unfold Builder.finish at h
      split at h
      · cases h
      · cases h
        rfl
  intro e he
  obtain ⟨index, item⟩ := (mem_of_foldlM_read read e (plan ▸ he)).resolve_left List.not_mem_nil
  exact written_of_mem_itemsOf item

end FetchPlan

/-! ## What a fetch asks a store for -/

namespace Loading

variable {σ : Type} {s : Schema} {entity : String} {owners : List Record} {e : String × Fetch}
  {qs : List RelatedQuery}

theorem Sends.offset (sends : Sends s entity owners e qs) {q : RelatedQuery} (hq : q ∈ qs) :
    q.offset = 0 ∨ ∃ limit sorting, e.2.kind = .query q.offset limit sorting := by
  cases sends with
  | nothing => cases hq
  | batch =>
    rw [List.mem_singleton.mp hq]
    exact .inl rfl
  | pages =>
    obtain ⟨key, -, rfl⟩ := List.mem_map.mp hq
    exact .inr ⟨_, _, rfl⟩

/-- Whatever a plan is carried out for, its queries start at the first target or where a query fetch
of the plan says. -/
theorem execute_offsets (st : Store σ) (s : Schema) (entity : String) (p : FetchPlan)
    (roots : List Record) (r : Recorded σ) :
    ∃ issued : List RelatedQuery,
      (execute st.recorded s entity p roots r).2.trips = r.trips ++ issued.map .related ∧
      ∀ q ∈ issued, q.offset = 0 ∨
        ∃ e ∈ p.entries, ∃ limit sorting, e.2.kind = .query q.offset limit sorting := by
  obtain ⟨issued, trips, sent⟩ := execute_sends st s entity p roots r
  refine ⟨issued, trips, fun q hq => ?_⟩
  obtain ⟨e, he, owners, qs, sends, hq⟩ := sent q hq
  exact (sends.offset hq).imp_right fun kind => ⟨e, he, kind⟩

end Loading

/-! ## Prepared requests -/

namespace Request

variable {s : Schema} {c : Settings} {r : Request} {p : Prepared}

theorem prepare_offset (prepared : r.prepare s c = .ok p) :
    p.select.offset = r.pager.offset ∧ (∀ q ∈ p.count, q.offset = 0) ∧
      FetchPlan.parse r.fetch = .ok p.plan := by
  unfold prepare at prepared
  simp only [bind_eq_ok, pure_eq_ok] at prepared
  obtain ⟨_, _, _, _, plan, parsed, _, _, _, _, rfl⟩ := prepared
  refine ⟨rfl, ?_, parsed⟩
  intro q hq
  dsimp only at hq
  split at hq
  · cases hq
    rfl
  · cases hq

/-- The plan of a request is prepared apart from everything else. -/
theorem prepare_refetched {text : String} {plan : FetchPlan} (prepared : r.prepare s c = .ok p)
    (parsed : FetchPlan.parse text = .ok plan) (valid : s.validatePlan c r.entity plan = .ok ()) :
    ({ r with fetch := text } : Request).prepare s c = .ok { p with plan := plan } := by
  unfold prepare at prepared ⊢
  simp only [bind_eq_ok, pure_eq_ok] at prepared ⊢
  obtain ⟨_, limits, f, hf, _, _, _, _, order, horder, rfl⟩ := prepared
  exact ⟨_, limits, f, hf, plan, parsed, _, valid, order, horder, rfl⟩

/-- **Positions decide whether a store can start.** The page itself starts where a store can start.
A query fetch does so exactly if the first position that it asks for is not beyond the largest
offset by more than one; where it does not, the request is prepared all the same, and the offset is
handed to the store. -/
theorem prepared_offsets (reachable : r.pager.Reachable) (prepared : r.prepare s c = .ok p) :
    (p.select.offset ≤ Pager.maxOffset ∧ ∀ q ∈ p.count, q.offset ≤ Pager.maxOffset) ∧
    (∀ e ∈ p.plan.entries, ∀ offset limit sorting, e.2.kind = .query offset limit sorting →
      ∃ first, Fetch.AsksFrom r.fetch.toList e.2.name first ∧ first < UInt64.size ∧
        offset + 1 = first ∧ (offset ≤ Pager.maxOffset ↔ first ≤ Pager.maxOffset + 1)) ∧
    ∀ {σ : Type} (st : Store σ) (roots : List Record) (rec : Recorded σ),
      ∃ issued : List RelatedQuery,
      (Loading.execute st.recorded s r.entity p.plan roots rec).2.trips =
        rec.trips ++ issued.map .related ∧
      ∀ q ∈ issued, q.offset = 0 ∨
        ∃ e ∈ p.plan.entries, ∃ limit sorting, e.2.kind = .query q.offset limit sorting := by
  obtain ⟨select, count, parsed⟩ := prepare_offset prepared
  refine ⟨⟨select ▸ reachable.offset_le, fun q hq => count q hq ▸ Nat.zero_le _⟩, ?_, ?_⟩
  · intro e he offset limit sorting kind
    obtain ⟨asks, small⟩ := FetchPlan.written_of_parse parsed e he offset limit sorting kind
    exact ⟨offset + 1, asks, small, rfl, Nat.succ_le_succ_iff.symm⟩
  · exact fun st roots rec => Loading.execute_offsets st s r.entity p.plan roots rec

namespace FarBooks

open Dataset.Library

/-- The books of the authors from a position on. -/
def request (fetch : String) : Request := ⟨"Author", "", .ofSettings .default, fetch⟩

def selection : Selection := ⟨"Author", [], none, false, [], [], some 20, 0⟩

/-- The request with the books from an offset on. -/
def prepared (offset : Nat) : Prepared :=
  ⟨selection, some selection.forCount, ⟨[("", ⟨"books", .query offset none []⟩)]⟩⟩

/-- The request is prepared whatever the position. -/
theorem prepare_request {text : String} {n : Nat} (hn : 1 ≤ n) (small : n < UInt64.size)
    (h : text.toList = "books".toList ++ '[' :: (Decimal.text n ++ [':'] ++ ']' :: [])) :
    (request text).prepare schema .default = .ok (prepared (n - 1)) := by
  have named : "books" ≠ "" ∧ ∀ c ∈ "books".toList, FetchPlan.isNameChar c = true :=
    ⟨by decide, List.all_eq_true.mp (by decide +kernel)⟩
  have bounded : Fetch.IsBounded text "books" n none [] :=
    ⟨_, [], h, named, .onward (Fetch.isPosition_text hn small) (by simp [Text.Blanks]), .absent⟩
  obtain ⟨offset, limit, ⟨hoffset, hlimit, -⟩, parsed⟩ := FetchPlan.parse_of_isBounded bounded
  obtain rfl : offset = n - 1 := by omega
  obtain rfl : limit = none := by simpa using hlimit
  have whole : (request "").prepare schema .default =
      .ok ⟨selection, some selection.forCount, ⟨[]⟩⟩ := by
    cbv
  exact prepare_refetched whole parsed (by cbv)

end FarBooks

open Dataset.Library FarBooks in
/-- The second book of each author and those after it. -/
theorem prepared_offsets_library :
    (prepared 1).select.offset ≤ Pager.maxOffset ∧
      ∃ first, Fetch.AsksFrom "books[2:]".toList "books" first ∧ 1 + 1 = first := by
  have ready : (request "books[2:]").prepare schema .default = .ok (prepared 1) :=
    prepare_request (n := 2) (by decide) (by decide) (by decide +kernel)
  obtain ⟨⟨page, -⟩, fetches, -⟩ := prepared_offsets (.ofSettings .default) ready
  have entered : ("", ⟨"books", .query 1 none []⟩) ∈ (prepared 1).plan.entries :=
    List.mem_singleton_self _
  obtain ⟨first, asks, -, offset, -⟩ := fetches _ entered 1 none [] rfl
  exact ⟨page, first, asks, offset⟩

open Dataset.Library FarBooks in
/-- A position that no store can start at is read and handed to the store all the same. -/
theorem prepared_offset_beyond_store :
    Schema.declare entities = .ok schema ∧
    (request "books[9223372036854775809:]").prepare schema .default =
      .ok (prepared 9223372036854775808) ∧
    ¬ 9223372036854775808 ≤ Pager.maxOffset ∧
    (Loading.execute Dataset.store.recorded schema "Author" (prepared 9223372036854775808).plan
      [author (.int 1)] ⟨books, [], none⟩).2.trips =
        [.related ⟨"Author", "books", "Book", kept, [.int 1], [], none, 9223372036854775808⟩] := by
  refine ⟨by rfl, ?_, by decide, ?_⟩
  · exact prepare_request (n := 9223372036854775809) (by decide) (by decide) (by decide +kernel)
  · cbv

end Request

end EntityQuery
