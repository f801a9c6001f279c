import OcgeoFdw.Options.ValidatedOptions
import OcgeoFdw.Options.AcceptedLists
import OcgeoFdw.RateLimiting.Division
import OcgeoFdw.RateLimiting.Permits
import OcgeoFdw.RateLimiting.PerSecond
import OcgeoFdw.RateLimiting.SharedServers
import OcgeoFdw.RateLimiting.Sleep
import OcgeoFdw.RateLimiting.Refill
import OcgeoFdw.Api.RequestUrl
import OcgeoFdw.Planning.Classification
import OcgeoFdw.Planning.Meaning
import OcgeoFdw.Planning.NodeCasts
import OcgeoFdw.Planning.ColumnList
import OcgeoFdw.Planning.Paths
import OcgeoFdw.Scanning.ScannedRows
import OcgeoFdw.Scanning.Accounting
import OcgeoFdw.Scanning.StatsRuns
import OcgeoFdw.Scanning.Rows
import OcgeoFdw.Api.JsonDocuments
import OcgeoFdw.Api.JsonPrinter
import OcgeoFdw.Api.JsonTrees
import OcgeoFdw.Scanning.JsonColumns
import OcgeoFdw.Api.Lifecycle
import OcgeoFdw.Api.RequestBuffer
import OcgeoFdw.Api.ResponseBody
import OcgeoFdw.Api.SdsTokens
import OcgeoFdw.Scanning.SessionMemory
import OcgeoFdw.RateLimiting.TotalTime
import OcgeoFdw.RateLimiting.UserIsolation
import OcgeoFdw.Scanning.ScanIsolation
import OcgeoFdw.Api.Coordinates
import OcgeoFdw.Scanning.Explain
import OcgeoFdw.Scanning.PointColumns
import OcgeoFdw.Scanning.PlannedScans
