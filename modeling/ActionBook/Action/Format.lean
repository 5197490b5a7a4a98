import ActionBook.Action.Basic
import ActionBook.Document.Codec

/-!
# `Action.Format`: actions as JSON

The fields of every type are written in the order given here; those without a value are left out.
-/

namespace ActionBook

/-- An id is written as its text. -/
def ActionId.codec : Codec ActionId := Codec.text.iso ActionId.text ActionId.mk

/-- The format of a key with a value. -/
def Property.codec : Codec Property :=
  .record "Property"
    (.cons (.required "key" .text) <| .cons (.defaulting "value" .text "") .nil)
    (fun p => (p.key, p.value, ()))
    fun (key, value, ()) => { key, value }

/-- The format of a datasource. -/
def Datasource.codec : Codec Datasource :=
  .record "Datasource"
    (.cons (.required "name" .text) <|
     .cons (.required "url" .text) <|
     .cons (.defaulting "headers" (.listOf Property.codec) []) .nil)
    (fun d => (d.name, d.url, d.headers, ()))
    fun (name, url, headers, ()) => { name, url, headers }

/-- The format of a template. -/
def RequestTemplate.codec : Codec RequestTemplate :=
  .record "ActionConfiguration"
    (.cons (.defaulting "http_method" .text "GET") <|
     .cons (.defaulting "path" .text "") <|
     .cons (.defaulting "headers" (.listOf Property.codec) []) <|
     .cons (.defaulting "query_parameters" (.listOf Property.codec) []) <|
     .cons (.optional "body" .text) <|
     .cons (.optional "timeout_ms" .count) .nil)
    (fun t => (t.method, t.path, t.headers, t.query, t.body, t.timeout, ()))
    fun (method, path, headers, query, body, timeout, ()) =>
      { method, path, headers, query, body, timeout }

/-- The format of an action. -/
def Action.codec : Codec Action :=
  .record "Action"
    (.cons (.optional "id" ActionId.codec) <|
     .cons (.required "name" .text) <|
     .cons (.required "plugin_id" .text) <|
     .cons (.optional "datasource" Datasource.codec) <|
     .cons (.defaulting "action_configuration" RequestTemplate.codec {}) <|
     .cons (.defaulting "json_path_keys" .textSet .empty) <|
     .cons (.defaulting "is_valid" .flag true) <|
     .cons (.defaulting "invalids" .textSet .empty) <|
     .cons (.optional "created_at" .time) <|
     .cons (.optional "updated_at" .time) .nil)
    (fun a => (a.id, a.name, a.plugin, a.datasource, a.template, a.bindingKeys, a.isValid,
      a.invalids, a.createdAt, a.updatedAt, ()))
    fun (id, name, plugin, datasource, template, bindingKeys, isValid, invalids, createdAt,
        updatedAt, ()) =>
      { id, name, plugin, datasource, template, bindingKeys, isValid, invalids, createdAt,
        updatedAt }

end ActionBook
