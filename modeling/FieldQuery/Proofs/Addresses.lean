import FieldQuery.Location.Address
import FieldQuery.Proofs.GetPut
import FieldQuery.Proofs.Plan
import FieldQuery.Proofs.Walks
import FieldQuery.Proofs.Writing

/-!
# The text of a location is its address

The text of a segment is a bracket around a literal or an index, and each
reader of paths takes it for the child that the segment identifies, whatever
characters the name is made of. So the text of a location compiles to a query
for this location alone, is planned with its segments for steps, and is read
as the node there. No two locations have one text: where a name or an index
ends can be seen from the text.
-/

namespace FieldQuery

open Query (Chain Token CharWritten Lexeme)
open FieldQuery.Path (QuotedBody PlainContent PlainSegment Spelled)

namespace Segment

/-- A character of a name is escaped if it could be taken for more than itself. -/
theorem escaped_cons
    (c : Char)
    (name : List Char) :
    (c = '\\' ∨ c = '\'') ∧ escaped (c :: name) = '\\' :: c :: escaped name ∨
      (c ≠ '\\' ∧ c ≠ '\'') ∧ escaped (c :: name) = c :: escaped name := by
  by_cases hescape : c = '\\'
  · exact Or.inl ⟨Or.inl hescape, by simp [escaped, hescape]⟩
  · by_cases hquote : c = '\''
    · exact Or.inl ⟨Or.inr hquote, by simp [escaped, hquote]⟩
    · exact Or.inr ⟨⟨hescape, hquote⟩, by simp [escaped, hescape, hquote]⟩

/-- A path takes the escapes of a name away again. -/
theorem unescaped_escaped
    (name : List Char) :
    Path.Step.unescaped (escaped name) = name := by
  induction name with
  | nil => rfl
  | cons c name ih =>
      rcases escaped_cons c name with ⟨-, hname⟩ | ⟨⟨hescape, -⟩, hname⟩
      · rw [hname, Path.Step.unescaped, ih]
      · rw [hname, Path.Step.unescaped, ih]
        · exact fun heq => absurd heq hescape
        · exact fun _ _ heq => absurd heq hescape

/-- An escaped name does not end the quotes around it. -/
theorem quotedBody_escaped
    (name : List Char) :
    QuotedBody '\'' (escaped name) := by
  induction name with
  | nil => exact .nil
  | cons c name ih =>
      rcases escaped_cons c name with ⟨-, hname⟩ | ⟨⟨hescape, hquote⟩, hname⟩
      · rw [hname]
        exact .escape ih
      · rw [hname]
        exact .plain hquote hescape ih

/-- An escaped name is one of the ways to write the name. -/
theorem exists_pieces
    (name : List Char) :
    ∃ pieces, List.Forall₂ (CharWritten '\'') name pieces ∧ escaped name = pieces.flatten := by
  induction name with
  | nil => exact ⟨[], .nil, rfl⟩
  | cons c name ih =>
      obtain ⟨pieces, hpieces, hrest⟩ := ih
      rcases escaped_cons c name with ⟨hc, hname⟩ | ⟨⟨hescape, hquote⟩, hname⟩
      · have hshort : (c, c) ∈ Query.shortEscapes := by
          rcases hc with rfl | rfl <;> decide
        exact ⟨_, .cons (.short hshort) hpieces, by rw [hname, hrest]; rfl⟩
      · exact ⟨_, .cons (.raw hquote hescape) hpieces, by rw [hname, hrest]; rfl⟩

/-- Where the quotes around an escaped name end can be seen. -/
theorem escaped_append_inj
    {name other rest more : List Char}
    (h : escaped name ++ '\'' :: rest = escaped other ++ '\'' :: more) :
    name = other ∧ rest = more := by
  obtain ⟨pieces, hpieces, hname⟩ := exists_pieces name
  obtain ⟨others, hothers, hother⟩ := exists_pieces other
  have hread := Lexeme.textLiteral_pieces (Or.inl rfl) hpieces 0 rest
  rw [← hname, h, hother, Lexeme.textLiteral_pieces (Or.inl rfl) hothers 0 more] at hread
  obtain ⟨rfl, -⟩ := Prod.mk.inj (Except.ok.inj hread)
  exact ⟨rfl, (List.cons.inj (List.append_cancel_left h)).2⟩

/-- What stands between the brackets of a segment. -/
def content :
    Segment → List Char
  | member name => '\'' :: (escaped name.toList ++ ['\''])
  | index i => Nat.toDigits 10 i

/-- The token that stands between the brackets of a segment. -/
def token :
    Segment → Token
  | member name => .text name
  | index i => .integer i

/-- Whether the index of a segment, if it has one, is an integer of 64 bits. -/
def Bounded :
    Segment → Prop
  | member _ => True
  | index i => i < 9223372036854775808

theorem isDigit_of_mem_content
    {i : Nat}
    {d : Char}
    (h : d ∈ content (.index i)) :
    d.isDigit = true :=
  Nat.isDigit_of_mem_toDigits (by decide) (by decide) h

theorem toList_text
    (segment : Segment) :
    segment.text.toList = '[' :: (segment.content ++ [']']) := by
  cases segment with
  | member name => simp [text, content]
  | index i => simp [text, content, Nat.toList_repr]

/-- Where the index in a bracket ends can be seen. -/
theorem content_index_append
    (i : Nat)
    (rest : List Char) :
    (content (.index i) ++ ']' :: rest).takeWhile Char.isDigit = content (.index i) ∧
      (content (.index i) ++ ']' :: rest).dropWhile Char.isDigit = ']' :: rest :=
  Lexeme.takeWhile_run (fun _ => isDigit_of_mem_content) rfl rfl (Lexeme.detached_closeBracket rest)

/-- What stands in brackets tells the segment. -/
theorem content_append_inj
    {segment other : Segment}
    {rest more : List Char}
    (h : segment.content ++ ']' :: rest = other.content ++ ']' :: more) :
    segment = other ∧ rest = more := by
  have mixed {i : Nat} {name : String} {rest more : List Char}
      (h : content (.index i) ++ ']' :: rest = content (.member name) ++ ']' :: more) : False := by
    have htake := (content_index_append i rest).1
    rw [h] at htake
    exact Nat.toDigits_ne_nil htake.symm
  cases segment with
  | member name =>
      cases other with
      | member other =>
          simp only [content, List.cons_append, List.append_assoc, List.cons.injEq, true_and] at h
          obtain ⟨hname, hrest⟩ := escaped_append_inj h
          exact ⟨congrArg member (String.toList_inj.1 hname), (List.cons.inj hrest).2⟩
      | index j => exact (mixed h.symm).elim
  | index i =>
      cases other with
      | member other => exact (mixed h).elim
      | index j =>
          obtain ⟨htake, hdrop⟩ := content_index_append i rest
          rw [h, (content_index_append j more).1] at htake
          rw [h, (content_index_append j more).2] at hdrop
          have hnumber (n : Nat) : Integer64.ofDigits (Nat.toDigits 10 n) = n :=
            Nat.ofDigitChars_toDigits (by decide) (by decide)
          obtain rfl : j = i :=
            (hnumber j).symm.trans ((congrArg Integer64.ofDigits htake).trans (hnumber i))
          exact ⟨rfl, (List.cons.inj hdrop).2.symm⟩

/-- The token of a segment is written as its text has it. -/
theorem written_content
    (segment : Segment) :
    segment.token.Written segment.content := by
  cases segment with
  | member name =>
      obtain ⟨pieces, hpieces, hname⟩ := exists_pieces name.toList
      rw [content, hname]
      exact .text (Or.inl rfl) hpieces
  | index i =>
      have hdigits : (toString (i : Int)).toList = Nat.toDigits 10 i := Nat.toList_repr
      rw [content, ← hdigits]
      exact .integer

section Bounded

variable {segment : Segment}

theorem printable_token
    (h : segment.Bounded) :
    segment.token.Printable := by
  cases segment with
  | member name => trivial
  | index i =>
      have hindex : i < 9223372036854775808 := h
      simp only [token, Token.Printable, Integer64.isSigned, Bool.and_eq_true, decide_eq_true_eq]
      omega

/-- A path takes what stands between the brackets for the child of the segment. -/
theorem plainContent_content
    (h : segment.Bounded) :
    PlainContent segment.content segment.accessor := by
  cases segment with
  | member name =>
      have hcontent := PlainContent.quoted (Or.inl rfl) (quotedBody_escaped name.toList)
      rwa [unescaped_escaped, String.ofList_toList] at hcontent
  | index i =>
      exact @PlainContent.indexed _ false _ (fun _ => isDigit_of_mem_content)
        (Lexeme.ofSignedDigits?_toDigits rfl (printable_token h))

theorem plainSegment_text
    (h : segment.Bounded) :
    PlainSegment segment.text.toList segment.accessor := by
  rw [toList_text]
  exact (plainContent_content h).bracketed

/-- A query reads a segment as a bracket around its token. -/
theorem ofText_text
    {rest : List Char}
    {tokens : List Token}
    (h : segment.Bounded)
    (hrest : ∀ position, ∃ lexemes,
      Lexeme.ofText position rest = .ok lexemes ∧ lexemes.map Lexeme.token = tokens)
    (position : Nat) :
    ∃ lexemes,
      Lexeme.ofText position (segment.text.toList ++ rest) = .ok lexemes ∧
      lexemes.map Lexeme.token = .openBracket :: segment.token :: .closeBracket :: tokens := by
  have hopening : ∀ more, Lexeme.readToken '[' more = .ok (.openBracket, 0) := fun _ => rfl
  have hclosing : ∀ more, Lexeme.readToken ']' more = .ok (.closeBracket, 0) := fun _ => rfl
  obtain ⟨lexemes, hlexemes, htokens⟩ := hrest (position + 1 + segment.content.length + 1)
  have hread := Lexeme.ofText_written segment.written_content (printable_token h)
    (Lexeme.detached_closeBracket rest) (position + 1)
  rw [Lexeme.ofText_token rfl (hclosing _), List.drop_zero, Nat.add_zero, hlexemes] at hread
  rw [toList_text, List.cons_append, List.append_assoc, List.singleton_append,
    Lexeme.ofText_token rfl (hopening _), List.drop_zero, Nat.add_zero, hread]
  exact ⟨_, rfl, by simp [htokens]⟩

end Bounded

/-- A segment that leads on from an indexable value has a bounded index. -/
theorem bounded_of_get?
    {segment : Segment}
    {value child : Value}
    (hvalue : value.Indexable)
    (hchild : segment.get? value = some child) :
    segment.Bounded ∧ child.Indexable := by
  cases segment with
  | member name =>
      cases hvalue with
      | map hmembers => exact ⟨trivial, hmembers _ (Members.mem_of_get? hchild)⟩
      | _ => cases hchild
  | index i =>
      cases hvalue with
      | @list items hlength hitems =>
          have hitem : items[i]? = some child := hchild
          exact ⟨(List.getElem?_eq_some_iff.1 hitem).1.trans hlength,
            hitems _ (List.mem_of_getElem? hitem)⟩
      | _ => cases hchild

/-- The tokens of a segment select its child. -/
theorem bracket_token
    (segment : Segment)
    (rest : List Token) :
    Query.Selector.bracket (segment.token :: .closeBracket :: rest) =
      ⟨.ok (.choose (.access segment.accessor)), 2⟩ := by
  cases segment <;> rfl

/-- The accessor of a segment locates the segment and its child. -/
theorem locate?_accessor
    {segment : Segment}
    {value child : Value}
    (h : segment.get? value = some child) :
    segment.accessor.locate? value = some (segment, child) := by
  refine Query.locate?_eq_some_iff.2 ⟨?_, h⟩
  cases segment with
  | member name => exact .name name
  | index i => exact .fromStart i

end Segment

namespace Location

/-- The characters of a text of a location behind the root sign. -/
def body
    (location : Location) :
    List Char :=
  location.flatMap fun segment => segment.text.toList

theorem toList_text
    (location : Location) :
    location.text.toList = '$' :: location.body := by
  simp [text, body, List.flatMap_map]

/-- The tokens of a text of a location behind the root sign. -/
def tokens
    (location : Location) :
    List Token :=
  location.flatMap fun segment => [.openBracket, segment.token, .closeBracket]

/-- The query for the node at a location. -/
def address
    (location : Location) :
    Query :=
  ⟨Chain.prepend (location.map Segment.accessor) ⟨[], none⟩, location.text⟩

section Address

variable (location : Location)

theorem reads_tokens :
    Chain.Reads (location.tokens ++ [.endOfInput]) location.address.chain := by
  induction location with
  | nil => exact .atEnd rfl
  | cons segment location ih => exact @Chain.Reads.bracket _ _ 2 _ (segment.bracket_token _) ih

theorem leadingRun_address :
    location.address.leadingRun = location.map Segment.accessor :=
  Query.leadingRun_of_prepend rfl rfl

theorem beyondRun_address :
    location.address.beyondRun = ⟨[], none⟩ :=
  Query.beyondRun_of_prepend rfl rfl

theorem isSingular_address :
    location.address.isSingular = true := by
  simp [Query.isSingular, Query.selectors, address, Chain.prepend, Query.Selector.isSingular]

/-- The contexts and the last step of a plan for the accessors of a location. -/
theorem endpoints_address :
    (Path.Plan.endpoints (.root :: (location.map Segment.accessor).map .access)).1 =
        location.contexts ∧
      (Path.Plan.endpoints (.root :: (location.map Segment.accessor).map .access)).2 =
        location.last := by
  rcases List.eq_nil_or_concat location with rfl | ⟨front, segment, rfl⟩
  · exact ⟨rfl, rfl⟩
  · rw [List.concat_eq_append, List.map_append, List.map_singleton, Path.endpoints_concat, contexts,
      last, List.dropLast_concat, List.getLast?_concat]
    exact ⟨rfl, rfl⟩

end Address

/-- Two locations with the same text are the same. -/
theorem text_injective :
    Function.Injective text := by
  intro location other h
  have hbody : location.body = other.body := by
    have htext := congrArg String.toList h
    rw [toList_text, toList_text] at htext
    exact (List.cons.inj htext).2
  clear h
  induction location generalizing other with
  | nil =>
      cases other with
      | nil => rfl
      | cons segment other =>
          rw [body, body, List.flatMap_cons, Segment.toList_text] at hbody
          cases hbody
  | cons segment location ih =>
      cases other with
      | nil =>
          rw [body, body, List.flatMap_cons, Segment.toList_text] at hbody
          cases hbody
      | cons first other =>
          rw [body, body, List.flatMap_cons, List.flatMap_cons, Segment.toList_text,
            Segment.toList_text] at hbody
          simp only [List.cons_append, List.append_assoc, List.cons.injEq, true_and,
            List.nil_append] at hbody
          obtain ⟨rfl, hrest⟩ := Segment.content_append_inj hbody
          rw [ih hrest]

section Bounded

variable {location : Location}
variable (h : ∀ segment ∈ location, segment.Bounded)

include h

/-- The text of a location is nothing but segments that name one child each. -/
theorem takenApart_body :
    Path.TakenApart location.body location.address.chain := by
  induction location with
  | nil =>
      have hlex : Lexeme.ofText 1 [] = .ok [] := by
        rw [Lexeme.ofText]
      exact .ending .nothing hlex (.atEnd rfl)
  | cons segment location ih =>
      obtain ⟨hfirst, hothers⟩ := List.forall_mem_cons.1 h
      exact .cons (Segment.plainSegment_text hfirst) (ih hothers)

theorem exists_ofText_body
    (position : Nat) :
    ∃ lexemes,
      Lexeme.ofText position location.body = .ok lexemes ∧
      lexemes.map Lexeme.token = location.tokens := by
  induction location generalizing position with
  | nil => exact ⟨[], by rw [body, List.flatMap_nil, Lexeme.ofText], rfl⟩
  | cons segment location ih =>
      obtain ⟨hfirst, hothers⟩ := List.forall_mem_cons.1 h
      exact Segment.ofText_text hfirst (ih hothers) position

/-- The text of a location compiles to the query for its node. -/
theorem compile_text :
    Query.compile location.text = .ok location.address := by
  obtain ⟨lexemes, hlex, htokens⟩ := exists_ofText_body h 1
  have hreads : Chain.Reads (lexemes.map Lexeme.token ++ [.endOfInput]) location.address.chain := by
    rw [htokens]
    exact location.reads_tokens
  have hcompile := Path.compile_of_reads hlex hreads
  rwa [← toList_text, String.ofList_toList] at hcompile

/-- The text of a location is planned with its segments for steps. -/
theorem plan_text :
    ∃ plan,
      Path.Plan.compile .full location.text = .ok plan ∧
      plan.advanced = none ∧
      plan.contexts = location.contexts ∧
      plan.last = location.last := by
  obtain ⟨hsteps, hremainder⟩ :=
    Path.division_of_takenApart location.toList_text rfl (takenApart_body h)
  have hplan := Path.compile_of_ok (compile_text h)
  rw [hsteps, leadingRun_address] at hplan
  refine ⟨_, hplan, hremainder.eq_none_iff.2 (Or.inl (beyondRun_address location)), ?_⟩
  exact endpoints_address location

end Bounded

section Node

variable {location : Location}
variable {document node : Value}

/-- Only segments of bounded indices lead on from an indexable value. -/
theorem bounded_of_resolve?
    (hdocument : document.Indexable)
    (hnode : location.resolve? document = some node) :
    ∀ segment ∈ location, segment.Bounded := by
  induction location generalizing document with
  | nil => exact List.forall_mem_nil _
  | cons segment location ih =>
      obtain ⟨child, hchild, hrest⟩ := Option.bind_eq_some_iff.1 hnode
      obtain ⟨hbounded, hindexable⟩ := Segment.bounded_of_get? hdocument hchild
      exact List.forall_mem_cons.2 ⟨hbounded, ih hindexable hrest⟩

/-- The accessors of a location lead to its node along it. -/
theorem trace?_of_resolve?
    (hnode : location.resolve? document = some node) :
    Accessor.trace? (location.map Segment.accessor) document = some (location, node) := by
  induction location generalizing document with
  | nil =>
      obtain rfl := Option.some.inj hnode
      rfl
  | cons segment location ih =>
      obtain ⟨child, hchild, hrest⟩ := Option.bind_eq_some_iff.1 hnode
      rw [List.map_cons, Accessor.trace?, Segment.locate?_accessor hchild]
      simp only [Option.bind_some, ih hrest, Option.map_some]

/-- The query for the node at a location matches this node only. -/
theorem locate_address
    (hnode : location.resolve? document = some node) :
    location.address.locate document = .ok [location] := by
  have htrace := trace?_of_resolve? hnode
  rw [← leadingRun_address] at htrace
  rw [Query.locate_of_trace? rfl htrace, Query.beyondLocations, beyondRun_address]
  simp [Query.select]

end Node
end Location

namespace Client

open Store (MemoryStore)

variable {location : Location}
variable {document node : Value}

/-- A read at the text of a location returns the node there, as one value and as a list. -/
theorem get_text
    {request : Request}
    (config : Config)
    (session : Session MemoryStore)
    (hpath : request.path = location.text)
    (hfield : session.store.field? request.key request.field = some document)
    (hbounded : ∀ segment ∈ location, segment.Bounded)
    (hnode : location.resolve? document = some node) :
    (carryOut ((inMemory config).get request) session).1 = .ok node ∧
      (carryOut ((inMemory config).getAll request) session).1 = .ok [node] := by
  obtain ⟨plan, hplan, hplain, hcontexts, hlast⟩ := Location.plan_text hbounded
  obtain ⟨hfirst, hsecond⟩ := location.endpoints_address
  have hfinds := Store.finds_read request.field (location.map Segment.accessor) (some document)
  rw [Option.bind_some, Accessor.follow?_eq_trace?, Location.trace?_of_resolve? hnode, hfirst,
    hsecond, ← hcontexts, ← hlast] at hfinds
  have hclient : (inMemory config).plan request.path = .ok plan := by
    rw [hpath]
    exact hplan
  exact get_eq_ok rfl hclient hplain hfield hfinds.eq_ok

end Client

namespace Location

open Client (Request Session carryOut inMemory)
open Store (MemoryStore)

/--
No two locations have the same text, and the text of each location that a query
matches is the address of the node there: it compiles to a query that matches
this location only, it is planned with the segments of the location for steps
and nothing to evaluate behind them, and a client reads the node at it.
-/
theorem text_addresses :
    Function.Injective text ∧
    ∀ (document : Value) (query : Query),
      document.WellFormed → document.Indexable → query.function = none →
      ∃ locations, query.locate document = .ok locations ∧ ∀ location ∈ locations,
        (∃ address,
          Query.compile location.text = .ok address ∧
          address.function = none ∧
          address.isSingular = true ∧
          address.locate document = .ok [location]) ∧
        (∃ plan,
          Path.Plan.compile .full location.text = .ok plan ∧
          plan.advanced = none ∧
          plan.contexts = location.contexts ∧
          plan.last = location.last) ∧
        ∃ node,
          location.resolve? document = some node ∧
          ∀ config (session : Session MemoryStore) (request : Request),
            request.path = location.text →
            session.store.field? request.key request.field = some document →
            (carryOut ((inMemory config).get request) session).1 = .ok node ∧
            (carryOut ((inMemory config).getAll request) session).1 = .ok [node] := by
  refine ⟨text_injective, fun document query hdocument hindexable hfunction => ?_⟩
  refine ⟨_, by rw [Query.locate, hfunction], fun location hlocation => ?_⟩
  obtain ⟨⟨way, node⟩, hmem, rfl⟩ := List.mem_map.1 hlocation
  have hnode := Query.resolve?_of_mem_select hdocument hmem
  have hbounded := bounded_of_resolve? hindexable hnode
  refine ⟨?_, plan_text hbounded, node, hnode, ?_⟩
  · exact ⟨way.address, compile_text hbounded, rfl, way.isSingular_address, locate_address hnode⟩
  · intro config session request hpath hfield
    exact Client.get_text config session hpath hfield hbounded hnode

/-- A document with names that are made of the signs of paths. -/
def oddNames : Value :=
  .map [("", .null), ("it's ]['\\", .list [.null, .map [("$..*", .bool true)]])]

/-- The innermost of the odd names. -/
def oddLocation : Location :=
  [.member "it's ]['\\", .index 1, .member "$..*"]

/-- Everything below the root. -/
def allBelow : Query :=
  ⟨⟨[.descent, .choose .every], none⟩, "$..*"⟩

/-- A request about the innermost of the odd names. -/
def oddRequest : Request :=
  { Client.bookRequest with path := "$['it\\'s ][\\'\\\\'][1]['$..*']" }

/-- What is found by a descent is found again by its text. -/
theorem text_addresses_oddNames :
    oddNames.WellFormed ∧
      oddNames.Indexable ∧
      allBelow.function = none ∧
      (∃ locations, allBelow.locate oddNames = .ok locations ∧ oddLocation ∈ locations) ∧
      (∃ address,
        Query.compile oddRequest.path = .ok address ∧
        address.locate oddNames = .ok [oddLocation]) ∧
      (carryOut ((inMemory .default).get oddRequest)
        (.start (MemoryStore.empty.insert oddRequest.key oddRequest.field oddNames))).1 =
          .ok (.bool true) := by
  have hdocument : oddNames.WellFormed := by
    simp [oddNames, Members.names]
  have hindexable : oddNames.Indexable := by
    refine .map (List.forall_mem_cons.2 ⟨.null, List.forall_mem_singleton.2 ?_⟩)
    refine .list (by decide) (List.forall_mem_cons.2 ⟨.null, List.forall_mem_singleton.2 ?_⟩)
    exact .map (List.forall_mem_singleton.2 .bool)
  obtain ⟨locations, hlocate, haddress⟩ :=
    text_addresses.2 oddNames allBelow hdocument hindexable rfl
  have hfound : (allBelow.locate oddNames).map (fun all => decide (oddLocation ∈ all)) =
      .ok true := by
    decide +kernel
  rw [hlocate] at hfound
  have htext : oddRequest.path = oddLocation.text := by
    decide +kernel
  have hmem : oddLocation ∈ locations := of_decide_eq_true (Except.ok.inj hfound)
  obtain ⟨⟨address, hcompile, -, -, hlocated⟩, -, node, hnode, hread⟩ := haddress oddLocation hmem
  obtain rfl : Value.bool true = node := Option.some.inj hnode
  rw [← htext] at hcompile
  exact ⟨hdocument, hindexable, rfl, ⟨locations, hlocate, hmem⟩, ⟨address, hcompile, hlocated⟩,
    (hread _ _ _ htext rfl).1⟩

end Location
end FieldQuery
