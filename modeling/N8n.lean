import N8n.Workflow.Renaming
import N8n.Workflow.Transposition
import N8n.Graph.RoundTrip
import N8n.Graph.PathSearch
import N8n.Engine.Resuming
import N8n.Expressions.FromAiCalls
import N8n.Expressions.PairedItems
import N8n.Diff.GroupWorkflows
import N8n.Broker.PendingRequests
import N8n.References.KeptValues
import N8n.NodeParameters.Refill
import N8n.NodeParameters.ResolveOrder
import N8n.NodeParameters.FilterParameter
import N8n.Broker.FinalMessages
import N8n.Concurrency.Fairness
import N8n.Concurrency.Reservations
import N8n.CalcText.FixedWidth
import N8n.Codegen.RepresentsIff
import N8n.AstInterpreter.Confinement
import N8n.Codegen.DeclaredBeforeUse
import N8n.Concurrency.Attempts
import N8n.Concurrency.WaitTracker
import N8n.Scaling.DanglingExecutions
import N8n.Scaling.RecoveryLoop
import N8n.Scaling.Leadership
import N8n.Migration.ExportAccess
import N8n.Migration.CredentialCaches
import N8n.Migration.References
import N8n.RoleMapping.Failures
import N8n.Environments.ReadVariables
import N8n.Environments.UniqueKeys
import N8n.Ldap.Settings
import N8n.Ldap.SyncFrame
import N8n.Redaction.Payload
import N8n.DataTables.Positions
import N8n.DataTables.Patterns
import N8n.DataTables.BulkInsert
import N8n.Insights.FlushedEvents
import N8n.Insights.PreservesTotals
import N8n.Activation.InactiveRunsNothing
import N8n.Activation.StaysRemoved
import N8n.Ssh.KeepsApart
import N8n.Permissions.ShownScopes
import N8n.Graph.FilterDisabledNodes
import N8n.Graph.EntersAtFirst
import N8n.Engine.WaitingSources
import N8n.Engine.SourceGroups
import N8n.Graph.CleanRunData
import N8n.Engine.RetriedResults
import N8n.Engine.Deferrals
import N8n.Engine.OldestFirst
import N8n.Engine.ToolSources
import N8n.Crdt.Protocol
import N8n.CalcText.DateFormats
import N8n.Workflow.ConnectedNodes
import N8n.Workflow.SearchNodes
import N8n.Workflow.HighestNodes
import N8n.Codegen.Roots
